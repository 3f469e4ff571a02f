import FWServer.Db.DbRedis
import FWServer.Kernel.Machine

/-!
# What a `dbredis` service stores

A single service runs its commands one after the other.  Its redis hash of a table is compared
with the *live* records: a finite map from keys to records that an insert and an update extend
and a remove shrinks.
-/

open Lua

namespace DbRedis

/-! ### A service on its own -/

/-- A service and the redis it is connected to. -/
structure Server where
  service : State
  db : Redis

/-- Runs a coroutine of the service, redis answering its commands at once. -/
def alone {α : Type} (c : Service α) (s : Server) : Except String α × Server :=
  let x := c.serve (fun q db => some (Redis.exec q db)) s.service s.db
  match x.halt with
  | .returned a => (.ok a, ⟨x.state, x.server⟩)
  | .raised e => (.error e, ⟨x.state, x.server⟩)
  | .waiting _ _ => (.error "", ⟨x.state, x.server⟩)

/-- Runs a command of the scripts. -/
def execute (json : Cjson) (cmd : Cmd) (s : Server) : Except String Answer × Server :=
  alone (CMD.dispatch json cmd) s

section Alone

variable {α β : Type} (s : Server)

@[simp]
theorem alone_get :
  alone (Coroutine.get (I := interface)) s = (.ok s.service, s)
  := rfl

@[simp]
theorem alone_modify (f : State → State) :
  alone (Coroutine.modify (I := interface) f) s = (.ok (), ⟨f s.service, s.db⟩)
  := rfl

@[simp]
theorem alone_command (c : Redis.Command) :
  alone (command c) s = ((Redis.exec c s.db).1, ⟨s.service, (Redis.exec c s.db).2⟩)
  := by
  cases h : (Redis.exec c s.db).1 <;>
    simp [alone, command, Coroutine.serve, h]

/-- A sequence runs its second part where its first part ends. -/
theorem alone_bind (c : Service α) (g : α → Service β) :
  alone (c >>= g) s =
    match alone c s with
    | (.ok a, t) => alone (g a) t
    | (.error e, t) => (.error e, t)
  := by
  simp only [alone, Coroutine.serve_bind, Coroutine.Service.andThen]
  cases (c.serve (fun q db => some (Redis.exec q db)) s.service s.db).halt <;> rfl

/-- What is left of a sequence once its first part has returned. -/
theorem alone_bind_of_ok {c : Service α} {g : α → Service β} {a : α} {t : Server}
    (h : alone c s = (.ok a, t)) :
  alone (c >>= g) s = alone (g a) t
  := by
  rw [alone_bind, h]

theorem alone_map (f : α → β) (c : Service α) :
  alone (f <$> c) s = ((alone c s).1.map f, (alone c s).2)
  := by
  have hmap : f <$> c = c >>= fun a => .ret (f a) := rfl
  rw [hmap, alone_bind]
  rcases alone c s with ⟨_ | a, t⟩ <;> rfl

end Alone

/-! ### Connecting -/

/-- Connecting succeeds and changes no record. -/
theorem lredishandler_alone (tname : TName) (s : Server) :
  ∃ t, alone (lredishandler tname) s = (.ok (), t) ∧ SameRecords s.db t.db
  := by
  rw [lredishandler, alone_bind, alone_get]
  dsimp only
  split
  · exact ⟨s, rfl, .refl s.db⟩
  · rw [alone_bind, alone_command]
    dsimp only [Redis.exec]
    rw [alone_bind, alone_modify]
    dsimp only
    split
    · next hauto =>
        rw [setupCounter, alone_bind, alone_command]
        dsimp only [Redis.exec]
        split
        · rw [alone_bind, alone_command]
          exact ⟨_, rfl, .counter s.db hauto _⟩
        · exact ⟨_, rfl, .refl s.db⟩
    · exact ⟨_, rfl, .refl s.db⟩

/-- What a command does once the service is connected. -/
theorem alone_connected {α : Type} (tname : TName) (g : Unit → Service α) (s : Server) :
  ∃ t, SameRecords s.db t.db ∧ alone (lredishandler tname >>= g) s = alone (g ()) t
  := by
  obtain ⟨t, ht, hsame⟩ := lredishandler_alone tname s
  exact ⟨t, hsame, alone_bind_of_ok s ht⟩

/-! ### The live records -/

/-- The records of each table by key. -/
abbrev Live : Type :=
  TName → AList fun _ : Value => Table

namespace Live

/-- The effect of a command: an insert without a key only counts, for tables that count. -/
def apply (l : Live) : Cmd → Live
  | .insert tname key =>
      let default := (dbtable tname).detail
      if !key.truthy && (dbtable tname).auto then l
      else
        let key := key.orElse (default.get (dbtable tname).pkey)
        Function.update l tname ((l tname).insert key default)
  | .update tname rectab =>
      let key := rectab.get (dbtable tname).pkey
      if key.truthy then Function.update l tname ((l tname).insert key rectab) else l
  | .remove tname key =>
      if key.truthy then Function.update l tname ((l tname).erase key) else l
  | .query _ _ => l
  | .closeAll => l

/-- The live record of a key, if there is one. -/
def find (l : Live) (tname : TName) (key : Value) : List Table :=
  ((l tname).lookup key).toList

/-- All live records of a table. -/
def all (l : Live) (tname : TName) : List Table :=
  (l tname).entries.map Sigma.snd

/-- No other key with the text of `key` is live. -/
def Unambiguous (l : Live) (tname : TName) (key : Value) : Prop :=
  ∀ k ∈ l tname, k.tostring = key.tostring → k = key

end Live

/-- Whether the text of a record can be read back. -/
def RoundTrips (json : Cjson) (rectab : Table) : Prop :=
  json.decode (json.encode rectab) = .ok rectab

/-- The commands that keep the live records of the table `tname`: an insert stores the default
record under its own key, an update stores a record under a key that is not the counter, a remove
finds nothing live, and no key has the text of another live one. -/
def Keeps (tname : TName) (l : Live) : Cmd → Prop
  | .insert t key =>
      let default := (dbtable t).detail.get (dbtable t).pkey
      t = tname → (key.truthy = false ∧ (dbtable t).auto = true) ∨
        (key.orElse default = default ∧ l.Unambiguous t default)
  | .update t rectab =>
      let key := rectab.get (dbtable t).pkey
      t = tname → key.truthy = true → key.tostring ≠ autoincrKey ∧ l.Unambiguous t key
  | .remove t key => t = tname → key.truthy = true → key ∉ l t
  | .query _ _ => True
  | .closeAll => True

/-- The record a command stores can be read back. -/
def Readable (json : Cjson) : Cmd → Prop
  | .insert tname _ => RoundTrips json (dbtable tname).detail
  | .update _ rectab => RoundTrips json rectab
  | _ => True

/-- A redis hash holds the live records of a table, and besides the counter nothing else. -/
structure Holds (json : Cjson) (tname : TName) (h : AList fun _ : String => String)
    (m : AList fun _ : Value => Table) : Prop where
  stored : ∀ k r, m.lookup k = some r → h.lookup k.tostring = some (json.encode r)
  live : ∀ f ∈ h, ((dbtable tname).auto = true → f ≠ autoincrKey) → ∃ k ∈ m, k.tostring = f
  key : ∀ k r, m.lookup k = some r → r.get (dbtable tname).pkey = k
  truthy : ∀ k ∈ m, k.truthy = true
  record : ∀ k ∈ m, k.tostring ≠ autoincrKey
  text : ∀ k ∈ m, ∀ k' ∈ m, k.tostring = k'.tostring → k = k'
  readable : ∀ k r, m.lookup k = some r → RoundTrips json r

namespace Holds

variable {json : Cjson} {tname : TName} {h h' : AList fun _ : String => String}
  {m : AList fun _ : Value => Table}

theorem empty :
  Holds json tname ∅ ∅
  where
  stored := nofun
  live := nofun
  key := nofun
  truthy := nofun
  record := nofun
  text := nofun
  readable := nofun

/-- The counter does not matter. -/
theorem congr (hm : Holds json tname h m)
    (hsame : ∀ f, ((dbtable tname).auto = true → f ≠ autoincrKey) → h'.lookup f = h.lookup f) :
  Holds json tname h' m
  where
  stored k r hk := by
    have hmem : k ∈ m := AList.lookup_isSome.mp (by simp [hk])
    rw [hsame _ fun _ => hm.record k hmem]
    exact hm.stored k r hk
  live f hf hne := by
    have hmem : f ∈ h := by
      rw [← AList.lookup_isSome, ← hsame f hne]
      exact AList.lookup_isSome.mpr hf
    exact hm.live f hmem hne
  key := hm.key
  truthy := hm.truthy
  record := hm.record
  text := hm.text
  readable := hm.readable

/-- The key of a default record is not the counter. -/
theorem detail_pkey_ne (t : TName) :
  ((dbtable t).detail.get (dbtable t).pkey).tostring ≠ autoincrKey
  := by
  cases t <;> decide

/-- Storing a record makes it live under its key. -/
theorem insert (hm : Holds json tname h m) {key : Value} {rectab : Table}
    (hkey : rectab.get (dbtable tname).pkey = key) (htruthy : key.truthy = true)
    (hrecord : key.tostring ≠ autoincrKey)
    (htext : ∀ k ∈ m, k.tostring = key.tostring → k = key) (hread : RoundTrips json rectab) :
  Holds json tname (h.insert key.tostring (json.encode rectab)) (m.insert key rectab)
  := by
  have hne : ∀ k ∈ m, k ≠ key → k.tostring ≠ key.tostring := fun k hk hk' h => hk' (htext k hk h)
  constructor
  · intro k r hk
    rcases eq_or_ne k key with rfl | hk'
    · rw [AList.lookup_insert] at hk ⊢
      rw [Option.some.inj hk]
    · rw [AList.lookup_insert_ne hk'] at hk
      have hmem : k ∈ m := AList.lookup_isSome.mp (by simp [hk])
      rw [AList.lookup_insert_ne (hne k hmem hk')]
      exact hm.stored k r hk
  · intro f hf hcount
    rcases (AList.mem_insert _).mp hf with rfl | hf
    · exact ⟨key, (AList.mem_insert _).mpr (.inl rfl), rfl⟩
    · obtain ⟨k, hk, hkf⟩ := hm.live f hf hcount
      exact ⟨k, (AList.mem_insert _).mpr (.inr hk), hkf⟩
  · intro k r hk
    rcases eq_or_ne k key with rfl | hk'
    · rw [AList.lookup_insert] at hk
      rw [← Option.some.inj hk, hkey]
    · rw [AList.lookup_insert_ne hk'] at hk
      exact hm.key k r hk
  · intro k hk
    rcases (AList.mem_insert _).mp hk with rfl | hk
    · exact htruthy
    · exact hm.truthy k hk
  · intro k hk
    rcases (AList.mem_insert _).mp hk with rfl | hk
    · exact hrecord
    · exact hm.record k hk
  · intro k hk k' hk' heq
    rcases (AList.mem_insert _).mp hk with rfl | hk₁ <;>
      rcases (AList.mem_insert _).mp hk' with rfl | hk₁'
    · rfl
    · exact (htext k' hk₁' heq.symm).symm
    · exact htext k hk₁ heq
    · exact hm.text k hk₁ k' hk₁' heq
  · intro k r hk
    rcases eq_or_ne k key with rfl | hk'
    · rw [AList.lookup_insert] at hk
      rw [← Option.some.inj hk]
      exact hread
    · rw [AList.lookup_insert_ne hk'] at hk
      exact hm.readable k r hk

/-- The field of a key that is live, or whose text no other live key has, holds its record. -/
theorem lookup (hm : Holds json tname h m) {key : Value} (hrecord : key.tostring ≠ autoincrKey)
    (htext : ∀ k ∈ m, k.tostring = key.tostring → k = key) :
  h.lookup key.tostring = (m.lookup key).map json.encode
  := by
  cases hk : m.lookup key with
  | some r => exact hm.stored key r hk
  | none =>
      apply AList.lookup_eq_none.mpr
      intro hmem
      obtain ⟨k, hk', hkey⟩ := hm.live _ hmem fun _ => hrecord
      rw [htext k hk' hkey] at hk'
      exact AList.lookup_eq_none.mp hk hk'

/-- The records of a hash are the live ones. -/
theorem perm (hm : Holds json tname h m) :
  (h.entries.filter fun e => e.1 ≠ autoincrKey).Perm
    (m.entries.map fun e => ⟨e.1.tostring, json.encode e.2⟩)
  := by
  have hmem : ∀ k r, ⟨k, r⟩ ∈ m.entries → m.lookup k = some r :=
    fun k r he => AList.mem_lookup_iff.mpr he
  have hnodup : (m.entries.map fun e => (⟨e.1.tostring, json.encode e.2⟩ :
      Sigma fun _ : String => String)).Nodup := by
    apply List.Nodup.map_on _ m.nodupKeys.nodup
    rintro ⟨k, r⟩ he ⟨k', r'⟩ he' heq
    have hk := hmem k r he
    have hk' := hmem k' r' he'
    have htext := hm.text k (AList.lookup_isSome.mp (by simp [hk])) k'
      (AList.lookup_isSome.mp (by simp [hk'])) (congrArg Sigma.fst heq)
    subst htext
    rw [hk] at hk'
    rw [Option.some.inj hk']
  apply (List.perm_ext_iff_of_nodup (h.nodupKeys.nodup.filter _) hnodup).mpr
  rintro ⟨f, x⟩
  rw [List.mem_filter, List.mem_map]
  constructor
  · rintro ⟨he, hne⟩
    have hf := AList.mem_lookup_iff.mpr he
    obtain ⟨k, hk, rfl⟩ := hm.live f (AList.lookup_isSome.mp (Option.isSome_of_mem hf))
      fun _ => by simpa using hne
    obtain ⟨r, hr⟩ := Option.isSome_iff_exists.mp (AList.lookup_isSome.mpr hk)
    use ⟨k, r⟩, AList.mem_lookup_iff.mp hr
    have hx := hm.stored k r hr
    rw [hf] at hx
    rw [Option.some.inj hx]
  · rintro ⟨⟨k, r⟩, he, heq⟩
    have hk := hmem k r he
    cases heq
    use AList.mem_lookup_iff.mp (hm.stored k r hk)
    simpa using hm.record k (AList.lookup_isSome.mp (by simp [hk]))

end Holds

/-! ### Loading all records -/

/-- `ipairs` finds no field in the definition of a table, so a record is its text decoded. -/
@[simp]
theorem lunpackrecord_eq (json : Cjson) (tname : TName) (recordstr : String) :
  lunpackrecord json tname recordstr = json.decode recordstr
  := by
  rw [lunpackrecord, detail_ipairs]
  cases json.decode recordstr <;> rfl

/-- The record of a text, if it has one. -/
def decoded (json : Cjson) (recordstr : String) : Table :=
  match json.decode recordstr with
  | .ok rtab => rtab
  | .error _ => ∅

/-- Loading decodes every field but the counter. -/
theorem unpackAll_entries (json : Cjson) (tname : TName)
    (es : List (Sigma fun _ : String => String))
    (hread : ∀ e ∈ es, e.1 ≠ autoincrKey → ∃ r, json.decode e.2 = .ok r) :
  unpackAll json tname (es.flatMap fun e => [some e.1, some e.2])
    = .ok ((es.filter fun e => e.1 ≠ autoincrKey).map fun e => decoded json e.2)
  := by
  induction es with
  | nil => rfl
  | cons e es ih =>
      have hrest := ih fun e' he' => hread e' (List.mem_cons_of_mem _ he')
      simp only [List.flatMap_cons, List.cons_append, List.nil_append, unpackAll]
      by_cases hcount : e.1 = autoincrKey
      · rw [if_pos hcount, hrest]
        simp [hcount]
      · obtain ⟨r, hr⟩ := hread e List.mem_cons_self hcount
        rw [if_neg hcount, hrest, lunpackrecord_eq, hr]
        simp [hcount, decoded, hr]
        rfl

/-! ### What a command does -/

/-- What a query answers from the contents of redis. -/
def found (json : Cjson) (tname : TName) (key : Value) (db : Redis) : Except String (List Table) :=
  if key.truthy then
    match (db tname).lookup key.tostring with
    | none => .ok []
    | some recstr => if recstr = "" then .ok [] else (json.decode recstr).map fun rtab => [rtab]
  else
    unpackAll json tname ((db tname).entries.flatMap fun e => [some e.1, some e.2])

section Commands

variable (json : Cjson) (tname : TName) (s : Server)

theorem alone_ofExcept {α : Type} (x : Except String α) :
  alone (ofExcept x) s = (x, s)
  := by
  cases x <;> rfl

/-- A query answers what it finds and changes no record. -/
theorem query_alone (key : Value) :
  ∃ t : Server, SameRecords s.db t.db ∧
    alone (CMD.query json tname key) s = (found json tname key t.db, t)
  := by
  obtain ⟨t, hsame, heq⟩ := alone_connected tname (fun _ => _) s
  use t, hsame
  rw [CMD.query, heq, found]
  split
  · next hkey =>
      have hargs : Redis.arguments [key] = [key.tostring] := by
        simp [Redis.arguments, Value.ne_nil_of_truthy hkey]
      rw [alone_bind, alone_command, hargs]
      have hhead : (bulks (.bulks [(t.db tname).lookup key.tostring])).head?.join
          = (t.db tname).lookup key.tostring := rfl
      dsimp only [Redis.exec, List.map]
      rw [hhead]
      cases (t.db tname).lookup key.tostring with
      | none => rfl
      | some recstr =>
          dsimp only
          split
          · rfl
          · rw [alone_bind, alone_ofExcept, lunpackrecord_eq]
            cases json.decode recstr <;> rfl
  · rw [alone_bind, alone_command]
    exact alone_ofExcept t _

/-- An update stores the record under its own key. -/
theorem update_alone (rectab : Table) :
  let key := rectab.get (dbtable tname).pkey
  ∃ t : Server, SameRecords s.db t.db ∧ (alone (CMD.update json tname rectab) s).2.db =
    if key.truthy then
      Function.update t.db tname ((t.db tname).insert key.tostring (json.encode rectab))
    else t.db
  := by
  intro key
  have hpack : (lpackrecord json tname rectab .nil) = (json.encode rectab, key) := rfl
  rw [CMD.update, hpack]
  dsimp only
  split
  · obtain ⟨t, hsame, heq⟩ := alone_connected tname (fun _ => _) s
    use t, hsame
    rw [heq, alone_bind, alone_command]
    rfl
  · exact ⟨s, .refl s.db, rfl⟩

/-- Counting changes no record. -/
theorem lautoincrement_alone :
  SameRecords s.db (alone (lautoincrement tname) s).2.db
  := by
  rw [lautoincrement, alone_bind, alone_get]
  dsimp only
  split
  · split
    · next hauto =>
        rw [alone_bind, alone_command]
        dsimp only [Redis.exec, Redis.hincrby]
        cases Redis.tonumber (((s.db tname).lookup autoincrKey).getD "0") with
        | none => exact .refl s.db
        | some m =>
            dsimp only
            cases Redis.inRange (m + 1)
            · exact .refl s.db
            · exact .counter s.db hauto _
    · exact .refl s.db
  · exact .refl s.db

/-- An insert stores the default record, or only counts. -/
theorem insert_alone (key : Value) :
  let default := (dbtable tname).detail
  let stored := key.orElse (default.get (dbtable tname).pkey)
  ∃ t : Server, SameRecords s.db t.db ∧ (alone (CMD.insert json tname key) s).2.db =
    if !key.truthy && (dbtable tname).auto then t.db
    else Function.update t.db tname ((t.db tname).insert stored.tostring (json.encode default))
  := by
  intro default stored
  obtain ⟨t, hsame, heq⟩ := alone_connected tname (fun _ => _) s
  rw [CMD.insert, heq]
  split
  · exact ⟨_, hsame.trans (lautoincrement_alone tname t), rfl⟩
  · use t, hsame
    have hpack : (lpackrecord json tname (dbtable tname).detail key)
        = (json.encode default, stored) := rfl
    rw [hpack]
    dsimp only
    rw [alone_bind, alone_command]
    rfl

/-- A remove changes no record. -/
theorem remove_alone (key : Value) :
  SameRecords s.db (alone (CMD.remove tname key) s).2.db
  := by
  rw [CMD.remove]
  split
  · obtain ⟨t, hsame, heq⟩ := alone_connected tname (fun _ => _) s
    rw [heq, alone_bind, alone_command]
    exact hsame
  · exact .refl s.db

end Commands

/-! ### Runs -/

/-- A service on its own, beside the live records of the commands it has run. -/
def machine (json : Cjson) (tname : TName) : Machine (Server × Live) Cmd where
  init s := s.1.db tname = ∅ ∧ s.2 tname = ∅
  step s cmd := some ((execute json cmd s.1).2, s.2.apply cmd)

/-- A command that keeps the live records leaves a hash that holds them. -/
theorem Holds.execute {json : Cjson} {tname : TName} {s : Server} {l : Live}
    (hm : Holds json tname (s.db tname) (l tname)) {cmd : Cmd} (hkeeps : Keeps tname l cmd)
    (hread : Readable json cmd) :
  Holds json tname ((DbRedis.execute json cmd s).2.db tname) ((l.apply cmd) tname)
  := by
  rw [DbRedis.execute]
  cases cmd with
  | query t key =>
      obtain ⟨u, hsame, heq⟩ := query_alone json t s key
      rw [CMD.dispatch, alone_map, heq]
      exact hm.congr fun f hf => hsame tname f hf
  | update t rectab =>
      obtain ⟨u, hsame, heq⟩ := update_alone json t s rectab
      have hm' := hm.congr fun f hf => hsame tname f hf
      rw [CMD.dispatch, alone_map, heq, Live.apply]
      split
      · next htruthy =>
          rcases eq_or_ne tname t with rfl | ht
          · obtain ⟨hrecord, htext⟩ := hkeeps rfl htruthy
            rw [Function.update_self, Function.update_self]
            exact hm'.insert rfl htruthy hrecord htext hread
          · rw [Function.update_of_ne ht, Function.update_of_ne ht]
            exact hm'
      · exact hm'
  | insert t key =>
      obtain ⟨u, hsame, heq⟩ := insert_alone json t s key
      have hm' := hm.congr fun f hf => hsame tname f hf
      rw [CMD.dispatch, alone_map, heq, Live.apply]
      split
      · exact hm'
      · next hcount =>
          rcases eq_or_ne tname t with rfl | ht
          · obtain ⟨hkey, hauto⟩ | ⟨hdefault, htext⟩ := hkeeps rfl
            · simp [hkey, hauto] at hcount
            · rw [Function.update_self, Function.update_self, hdefault]
              exact hm'.insert rfl (detail_pkey_truthy tname) (detail_pkey_ne tname) htext hread
          · rw [Function.update_of_ne ht, Function.update_of_ne ht]
            exact hm'
  | remove t key =>
      have hm' := hm.congr fun f hf => remove_alone t s key tname f hf
      have hserver : (alone (CMD.dispatch json (.remove t key)) s).2
          = (alone (CMD.remove t key) s).2 := by
        rw [CMD.dispatch, alone_bind]
        rcases alone (CMD.remove t key) s with ⟨_ | _, u⟩ <;> rfl
      rw [hserver, Live.apply]
      split
      · next htruthy =>
          rcases eq_or_ne tname t with rfl | ht
          · -- what is removed is not live, so the live records stay what they are
            have herase : (l tname).erase key = l tname :=
              AList.ext (List.kerase_of_notMem_keys (hkeeps rfl htruthy))
            rw [Function.update_self, herase]
            exact hm'
          · rw [Function.update_of_ne ht]
            exact hm'
      · exact hm'
  | closeAll => exact hm

/-- In the runs all of whose commands keep the live records of a table, a redis hash that was
empty holds the live records. -/
theorem Holds.reached {json : Cjson} {tname : TName} {s : Server × Live}
    (h : (machine json tname).Reaches
      (fun s cmd => Keeps tname s.2 cmd ∧ Readable json cmd) s) :
  Holds json tname (s.1.db tname) (s.2 tname)
  := by
  apply Machine.invariant (P := fun s => Holds json tname (s.1.db tname) (s.2 tname)) _ _ h
  · rintro s ⟨hdb, hlive⟩
    rw [hdb, hlive]
    exact .empty
  · rintro s cmd s' hs ⟨hkeeps, hread⟩ hstep
    obtain rfl := Option.some.inj hstep
    exact hs.execute hkeeps hread

/-- A query by key answers the live record of the key. -/
theorem Holds.query {json : Cjson} (hempty : ∃ e, json.decode "" = .error e) {tname : TName}
    {s : Server} {l : Live} (hm : Holds json tname (s.db tname) (l tname)) {key : Value}
    (htruthy : key.truthy = true) (hrecord : key.tostring ≠ autoincrKey)
    (htext : l.Unambiguous tname key) :
  (DbRedis.execute json (.query tname key) s).1 = .ok (.records (l.find tname key))
  := by
  obtain ⟨t, hsame, heq⟩ := query_alone json tname s key
  rw [DbRedis.execute, CMD.dispatch, alone_map, heq, found, if_pos htruthy,
    hsame _ _ fun _ => hrecord, hm.lookup hrecord htext, Live.find]
  cases hk : (l tname).lookup key with
  | none => rfl
  | some r =>
      have hread : json.decode (json.encode r) = .ok r := hm.readable key r hk
      have hne : json.encode r ≠ "" := by
        obtain ⟨e, he⟩ := hempty
        intro h
        rw [h, he] at hread
        cases hread
      simp only [Option.map_some, if_neg hne, hread]
      rfl

/-- A query without a key answers all live records. -/
theorem Holds.queryAll {json : Cjson} {tname : TName} {s : Server} {l : Live}
    (hm : Holds json tname (s.db tname) (l tname)) :
  ∃ recs, (DbRedis.execute json (.query tname .nil) s).1 = .ok (.records recs) ∧
    recs.Perm (l.all tname)
  := by
  obtain ⟨t, hsame, heq⟩ := query_alone json tname s .nil
  have hm' := hm.congr fun f hf => hsame tname f hf
  have hdecode : ∀ k r, (l tname).lookup k = some r → decoded json (json.encode r) = r := by
    intro k r hk
    have hread : json.decode (json.encode r) = .ok r := hm.readable k r hk
    rw [decoded, hread]
  have hread : ∀ e ∈ (t.db tname).entries, e.1 ≠ autoincrKey → ∃ r, json.decode e.2 = .ok r := by
    rintro ⟨f, x⟩ he hne
    have hmem := hm'.perm.mem_iff.mp (List.mem_filter.mpr ⟨he, by simpa using hne⟩)
    obtain ⟨⟨k, r⟩, hk, heq⟩ := List.mem_map.mp hmem
    cases heq
    exact ⟨r, hm.readable k r (AList.mem_lookup_iff.mpr hk)⟩
  use ((t.db tname).entries.filter fun e => e.1 ≠ autoincrKey).map fun e => decoded json e.2
  constructor
  · rw [DbRedis.execute, CMD.dispatch, alone_map, heq, found, unpackAll_entries _ _ _ hread]
    rfl
  · have hperm := hm'.perm.map fun e => decoded json e.2
    rw [List.map_map] at hperm
    apply hperm.trans
    apply List.Perm.of_eq
    apply List.map_congr_left
    rintro ⟨k, r⟩ he
    exact hdecode k r (AList.mem_lookup_iff.mpr he)

/-- In every run all of whose commands keep the live records of a table, the service answers
queries as the live records do, and every live record has its key in the primary-key field. -/
theorem queries_live_records {json : Cjson} (hempty : ∃ e, json.decode "" = .error e)
    {tname : TName} {s : Server × Live}
    (h : (machine json tname).Reaches
      (fun s cmd => Keeps tname s.2 cmd ∧ Readable json cmd) s) :
  (∀ key, key.truthy = true → key.tostring ≠ autoincrKey → s.2.Unambiguous tname key →
    (execute json (.query tname key) s.1).1 = .ok (.records (s.2.find tname key))) ∧
  (∃ recs, (execute json (.query tname .nil) s.1).1 = .ok (.records recs) ∧
    recs.Perm (s.2.all tname)) ∧
  ∀ key rectab, (s.2 tname).lookup key = some rectab → rectab.get (dbtable tname).pkey = key
  := by
  have hm := Holds.reached h
  constructor
  · intro key htruthy hrecord htext
    exact hm.query hempty htruthy hrecord htext
  · exact ⟨hm.queryAll, hm.key⟩

/-- A service that has not connected yet, and an empty redis. -/
def noRecords : Server × Live :=
  (⟨⟨fun _ => false⟩, fun _ => ∅⟩, fun _ => ∅)

/-- The record of an account. -/
def player : Table :=
  .ofFields [("accountName", .str "player"), ("accountPwd", .str "secret"),
    ("userId", .num 1001), ("loginip", .str "")]

/-- The text of the record `player`. -/
def playerText : String :=
  "\x7b\"accountName\":\"player\",\"accountPwd\":\"secret\",\"userId\":1001,\"loginip\":\"\"\x7d"

/-- A JSON library for the one record `player`. -/
def playerJson : Cjson where
  encode r := if r.get (.str "accountName") = .str "player" then playerText else "null"
  decode s :=
    if s = playerText then .ok player else .error "Expected value but found T_END at character 1"

/-- A record is found once it has been stored. -/
theorem queries_live_records_player :
  (execute playerJson (.query .account (.str "player"))
    (execute playerJson (.update .account player) noRecords.1).2).1 = .ok (.records [player])
  := by
  have hreach : (machine playerJson .account).Reaches
      (fun s cmd => Keeps .account s.2 cmd ∧ Readable playerJson cmd)
      ((execute playerJson (.update .account player) noRecords.1).2,
        noRecords.2.apply (.update .account player)) := by
    apply Machine.Reaches.step (s := noRecords) (l := Cmd.update .account player)
    · exact .init ⟨rfl, rfl⟩
    · exact ⟨fun _ _ => ⟨by decide, fun k hk => absurd hk (AList.notMem_empty k)⟩, rfl⟩
    · rfl
  have hempty : ∃ e, playerJson.decode "" = .error e := ⟨_, rfl⟩
  have hquery := (queries_live_records hempty hreach).1
  apply hquery (.str "player") rfl (by decide)
  intro k hk _
  have hkey : k = player.get (.str "accountName") ∨ k ∈ (∅ : AList fun _ : Value => Table) :=
    (AList.mem_insert _).mp hk
  rcases hkey with rfl | hk
  · rfl
  · cases hk

/-- A record is still found once it has been removed. -/
theorem removed_record_found :
  let cmds := [Cmd.update .account player, .remove .account (.str "player")]
  ∃ s, (machine playerJson .account).exec noRecords cmds = some s ∧
    s.2.find .account (.str "player") = [] ∧
    (execute playerJson (.query .account (.str "player")) s.1).1 = .ok (.records [player])
  := ⟨_, rfl, rfl, rfl⟩

end DbRedis
