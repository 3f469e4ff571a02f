import FWServer.Db.DbRedis

/-!
# The fields of records that are read

`services/skynet/dbredis.lua`: `lunpackrecord` is to give the fields that a stored record lacks the defaults of
the schema.  Its loop takes the names of the fields from `ipairs` of the schema, which is keyed by names and
has no positions, so it gives no defaults.

So a record is complete precisely when it has been stored with all fields of the schema.
-/

open Lua

namespace DbRedis

/-- The loop of `lunpackrecord`, over the names that `ipairs` visits. -/
def fillFields (detail : Table) (names : List Value) (rtab : Table) : Table :=
  names.foldl
    (fun rtab fname =>
      if (rtab.get fname).truthy then rtab else rtab.set fname (detail.get fname))
    rtab

/-- `lunpackrecord`, for any schema. -/
def unpackRecord (json : Cjson) (detail : Table) (recordstr : String) : Except String Table :=
  (json.decode recordstr).map (fillFields detail detail.ipairs)

/-- The record `r` has the fields that have been stored, and the defaults of the others. -/
structure Complete (detail stored r : Table) : Prop where
  fields : ∀ f, detail.get f ≠ .nil →
    r.get f = if stored.get f = .nil then detail.get f else stored.get f
  others : ∀ f, detail.get f = .nil → stored.get f ≠ .nil → r.get f = stored.get f

/-- All fields have been stored but those that `ipairs` visits, and of these none is stored as `false`
unless that is the default. -/
structure Covered (detail stored : Table) : Prop where
  present : ∀ f ∉ detail.ipairs, detail.get f ≠ .nil → stored.get f ≠ .nil
  truthy : ∀ f ∈ detail.ipairs, stored.get f = .bool false → detail.get f = .bool false

/-! ### Schemas keyed by names -/

/-- A schema without positions is covered by the records that have all its fields. -/
theorem covered_iff_stored {detail : Table} (h : detail.ipairs = []) (stored : Table) :
  Covered detail stored ↔ ∀ f, detail.get f ≠ .nil → stored.get f ≠ .nil
  := by
  constructor
  · intro hcovered f
    apply hcovered.present
    rw [h]
    apply List.not_mem_nil
  · intro hall
    constructor
    · intro f _
      apply hall
    · intro f hf
      rw [h] at hf
      cases hf

/-- So it is for the tables of the server. -/
theorem covered_dbtable (tname : TName) (stored : Table) :
  Covered (dbtable tname).detail stored ↔
    ∀ f, (dbtable tname).detail.get f ≠ .nil → stored.get f ≠ .nil
  := covered_iff_stored (detail_ipairs tname) stored

/-! ### The loop -/

theorem eq_nil_or_false_of_not_truthy {v : Value} (h : ¬ v.truthy = true) :
  v = .nil ∨ v = .bool false
  := by
  cases v with
  | nil => exact .inl rfl
  | bool b =>
      cases b with
      | false => exact .inr rfl
      | true => exact absurd rfl h
  | num n => exact absurd rfl h
  | str s => exact absurd rfl h
  | tab t => exact absurd rfl h

/-- A field that the loop visits gets its default if it does not count as true. -/
theorem fillFields_get (detail : Table) (names : List Value) (rtab : Table) (f : Value) :
  (fillFields detail names rtab).get f =
    if f ∈ names ∧ ¬ (rtab.get f).truthy = true then detail.get f else rtab.get f
  := by
  induction names generalizing rtab with
  | nil =>
      rw [if_neg (fun h => List.not_mem_nil h.1)]
      rfl
  | cons name names ih =>
      have hstep : fillFields detail (name :: names) rtab =
          fillFields detail names
            (if (rtab.get name).truthy then rtab else rtab.set name (detail.get name)) := rfl
      rw [hstep, ih]
      rcases eq_or_ne f name with rfl | hne
      · by_cases htrue : (rtab.get f).truthy = true
        · rw [if_pos htrue, if_neg (fun h => h.2 htrue), if_neg (fun h => h.2 htrue)]
        · rw [if_neg htrue, Table.get_set_self, ite_self, if_pos ⟨List.mem_cons_self, htrue⟩]
      · have hget : (if (rtab.get name).truthy then rtab
            else rtab.set name (detail.get name)).get f = rtab.get f := by
          split
          · rfl
          · apply Table.get_set_of_ne _ hne
        have hmem : f ∈ name :: names ↔ f ∈ names := by
          rw [List.mem_cons, or_iff_right hne]
        simp only [hget, hmem]

theorem fillFields_complete_iff (detail stored : Table) :
  Complete detail stored (fillFields detail detail.ipairs stored) ↔ Covered detail stored
  := by
  constructor
  · intro h
    constructor
    · intro f hf hdetail hstored
      have hfield := h.fields f hdetail
      rw [fillFields_get, if_neg (fun h' => hf h'.1), if_pos hstored, hstored] at hfield
      apply hdetail hfield.symm
    · intro f hf hfalse
      have hget : (fillFields detail detail.ipairs stored).get f = detail.get f := by
        rw [fillFields_get, if_pos]
        use hf
        rw [hfalse]
        apply Bool.false_ne_true
      have hne : stored.get f ≠ .nil := by
        rw [hfalse]
        rintro ⟨⟩
      rw [← hget, ← hfalse]
      by_cases hdetail : detail.get f = .nil
      · apply h.others f hdetail hne
      · rw [h.fields f hdetail, if_neg hne]
  · intro h
    constructor
    · intro f hdetail
      rw [fillFields_get]
      by_cases hf : f ∈ detail.ipairs
      · by_cases htrue : (stored.get f).truthy = true
        · rw [if_neg (fun h' => h'.2 htrue), if_neg (Value.ne_nil_of_truthy htrue)]
        · rw [if_pos ⟨hf, htrue⟩]
          rcases eq_nil_or_false_of_not_truthy htrue with hnil | hfalse
          · rw [if_pos hnil]
          · rw [h.truthy f hf hfalse, hfalse, ite_self]
      · rw [if_neg (fun h' => hf h'.1), if_neg (h.present f hf hdetail)]
    · intro f hdetail hstored
      rw [fillFields_get]
      split
      · next hvisited =>
          rcases eq_nil_or_false_of_not_truthy hvisited.2 with hnil | hfalse
          · exact absurd hnil hstored
          · rw [h.truthy f hvisited.1 hfalse, hfalse]
      · rfl

/-- A record that is read is complete precisely when all fields of the schema have been stored, but for
those at the positions that `ipairs` visits. -/
theorem records_complete_iff (json : Cjson) (detail : Table) {recordstr : String} {stored : Table}
    (h : json.decode recordstr = .ok stored) :
  (∃ r, unpackRecord json detail recordstr = .ok r ∧ Complete detail stored r) ↔
    Covered detail stored
  := by
  rw [← fillFields_complete_iff]
  unfold unpackRecord
  rw [h]
  constructor
  · rintro ⟨r, hr, hcomplete⟩
    obtain rfl := Except.ok.inj hr
    exact hcomplete
  · intro hcomplete
    use fillFields detail detail.ipairs stored, rfl

/-- A library that decodes the text of one record. -/
def oneRecord (r : Table) : Cjson where
  encode _ := "\x7b\"userId\":1001\x7d"
  decode text :=
    if text = "\x7b\"userId\":1001\x7d" then .ok r else .error "Expected value but found invalid token"

theorem records_complete_full :
  ∃ r, unpackRecord (oneRecord (.ofFields [("userId", .num 1001)])) (.ofFields [("userId", .num 1000)])
      "\x7b\"userId\":1001\x7d" = .ok r ∧
    Complete (.ofFields [("userId", .num 1000)]) (.ofFields [("userId", .num 1001)]) r
  := by
  apply (records_complete_iff _ _ rfl).mpr
  apply (covered_iff_stored (by decide) _).mpr
  intro f hf
  rcases eq_or_ne f (.str "userId") with rfl | hne
  · decide
  · have hnil : (Table.set ∅ (.str "userId") (.num 1000)).get f = .nil :=
      Table.get_set_of_ne ∅ hne (.num 1000)
    exact absurd hnil hf

/-- A record of a user that was stored before there was gold is read without gold. -/
theorem field_left_out :
  ¬ ∀ (json : Cjson) (detail : Table) (recordstr : String) (stored : Table),
    json.decode recordstr = .ok stored →
      ∃ r, unpackRecord json detail recordstr = .ok r ∧ Complete detail stored r
  := by
  intro h
  let stored : Table := .ofFields [("userId", .num 1001)]
  obtain ⟨r, hr, hcomplete⟩ := h (oneRecord stored) (dbtable .user).detail
    "\x7b\"userId\":1001\x7d" stored rfl
  have hgold := hcomplete.fields (.str "gold") (by decide)
  rw [← Except.ok.inj hr] at hgold
  revert hgold
  decide

end DbRedis
