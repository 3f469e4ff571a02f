import FWServer.Skynet.SharedReading

/-!
# Shared tables and Lua tables

What is read from a shared table is what the Lua table has, precisely when all integer keys fit an `int`, and an integer
that does not is only asked for where nothing has the key that is left of it.
-/

namespace Skynet

namespace Sharedata

open Seri (Object Heap Table lookup)

/-! ### The tables that are copied -/

/-- The integer that is left of a key. -/
def narrow (k : Int64) : Int64 :=
  k.toInt32.toInt64

/-- A table inside another one, so many levels deep. -/
inductive Nested (heap : Heap) : ℕ → ℕ → ℕ → Prop
  | here (ref : ℕ) : Nested heap 0 ref ref
  | field {n ref ref₁ ref' : ℕ} {key : Object} (he : (key, .table ref₁) ∈ (heap ref).entries)
      (h : Nested heap n ref₁ ref') : Nested heap (n + 1) ref ref'

/-- Integers and strings. -/
def IsTableKey : Object → Prop
  | .integer _ => True
  | .string _ => True
  | _ => False

/-- Numbers, strings, booleans and tables. -/
def IsTableValue : Object → Prop
  | .integer _ => True
  | .number _ => True
  | .string _ => True
  | .boolean _ => True
  | .table _ => True
  | _ => False

/-- A table with such keys and values, as are those inside it. -/
def Convertible (heap : Heap) (ref : ℕ) : Prop :=
  ∀ n ref', Nested heap n ref ref' → ∀ e ∈ (heap ref').entries, IsTableKey e.1 ∧ IsTableValue e.2

/-- The integer keys fit an `int`, and no integer of `wide` that does not is narrowed to a key. -/
def Fitting (heap : Heap) (wide : Int64 → Prop) (ref : ℕ) : Prop :=
  ∀ n ref', Nested heap n ref ref' →
    (∀ k v, (.integer k, v) ∈ (heap ref').entries → Fits k)
      ∧ ∀ k, wide k → ¬ Fits k → lookup (heap ref').entries (.integer (narrow k)) = .nil

/-- There are no more levels than calls, and the number of entries fits an `int`. -/
def Small (heap : Heap) (calls ref : ℕ) : Prop :=
  ∀ n ref', Nested heap n ref ref' → n < calls ∧ (heap ref').entries.length < 2 ^ 31

/-! ### The same table -/

/-- What is pushed is the value of the table; a table is read as a light userdata. -/
def Shows : Object → Pushed → Prop
  | .nil, .nil => True
  | .integer n, .integer m => n = m
  | .number a, .number b => a = b
  | .string s, .string s' => s = s'
  | .boolean a, .boolean b => a = b
  | .table _, .lightuserdata _ => True
  | _, _ => False

/-- Each key has the value that it has in the table, and the iteration gives every key once and ends.  The integers that
are asked for are those that fit an `int`, and those of `wide`. -/
structure SameTable (wide : Int64 → Prop) (S : Strings) (tbl : Conf Val) (t : Table) : Prop where
  integer : ∀ k, Fits k ∨ wide k →
    ∃ p, lindexconf tbl S (.integer k) = some p ∧ Shows (lookup t.entries (.integer k)) p
  string : ∀ s, ∃ p, lindexconf tbl S (.string s) = some p ∧ Shows (lookup t.entries (.string s)) p
  iterates : ∃ keys, Iterates tbl S .nil keys ∧ keys.Perm (t.entries.map Prod.fst)

/-- A shared table that is read from another one, and the table that has the same place. -/
inductive Reached (heap : Heap) (S : Strings) : Conf Val → ℕ → Conf Val → ℕ → Prop
  | here (tbl : Conf Val) (ref : ℕ) : Reached heap S tbl ref tbl ref
  | field {tbl tbl₁ tbl' : Conf Val} {ref ref₁ ref' : ℕ} {key : Object}
      (hkey : lookup (heap ref).entries key = .table ref₁)
      (hindex : lindexconf tbl S key = some (.lightuserdata tbl₁)) (h : Reached heap S tbl₁ ref₁ tbl' ref') :
      Reached heap S tbl ref tbl' ref'

/-- A shared table is the same as a table, as are those that are read from it. -/
def Refines (heap : Heap) (wide : Int64 → Prop) (S : Strings) (tbl : Conf Val) (ref : ℕ) : Prop :=
  ∀ tbl' ref', Reached heap S tbl ref tbl' ref' → SameTable wide S tbl' (heap ref')

/-! ### What `setvalue` does -/

section

variable {heap : Heap} {wide : Int64 → Prop} {S s s' : Strings} {calls n ref ref' : ℕ} {tbl tbl' : Conf Val}
  {key v : Object} {x : Val} {p : Pushed} {conv : ℕ → Strings → Option (Conf Val × Strings)}

theorem extends_setvalue (h : ∀ ref s tbl s', conv ref s = some (tbl, s') → s <+: s') :
  Extends (setvalue conv)
  := by
  intro v s x s' hv
  cases v with
  | string str =>
      obtain ⟨-, rfl⟩ := Prod.mk.inj (Option.some.inj hv)
      exact prefix_stringindex s str
  | table ref =>
      obtain ⟨⟨tbl, s₁⟩, htbl, heq⟩ := Option.map_eq_some_iff.mp hv
      obtain ⟨-, rfl⟩ := Prod.mk.inj heq
      exact h ref s tbl s₁ htbl
  | lightuserdata ptr => cases hv
  | other typename => cases hv
  | _ =>
      obtain ⟨-, rfl⟩ := Prod.mk.inj (Option.some.inj hv)
      exact List.prefix_rfl

theorem extends_convtable (heap : Heap) (calls : ℕ) :
  Extends (setvalue (convtable heap calls))
  := by
  induction calls with
  | zero => exact extends_setvalue fun ref s tbl s' h => by cases h
  | succ calls ih => exact extends_setvalue fun ref s tbl s' h => (grows_convert ih h).1

theorem isNil_of_produced (h : Produced (setvalue conv) S v x) (hv : v ≠ .nil) :
  x.isNil = false
  := by
  obtain ⟨s, s', hx, -⟩ := h
  cases v with
  | nil => exact absurd rfl hv
  | table ref =>
      obtain ⟨⟨tbl, s₁⟩, -, heq⟩ := Option.map_eq_some_iff.mp hx
      obtain ⟨rfl, -⟩ := Prod.mk.inj heq
      rfl
  | lightuserdata ptr => cases hx
  | other typename => cases hx
  | _ =>
      obtain ⟨rfl, -⟩ := Prod.mk.inj (Option.some.inj hx)
      rfl

/-- What has been copied is read as the value, and a table as the one that has been made of it. -/
theorem pushvalue_of_produced (h : Produced (setvalue conv) S v x) :
  ∃ p, pushvalue S x = some p ∧ Shows v p ∧ ∀ ref, v = .table ref →
    ∃ tbl s s', p = .lightuserdata tbl ∧ conv ref s = some (tbl, s') ∧ s' <+: S
  := by
  obtain ⟨s, s', hx, hS⟩ := h
  cases v with
  | string str =>
      have hpair : some (Val.string (stringindex s str).1, (stringindex s str).2) = some (x, s') := hx
      rw [Option.some.injEq, Prod.mk.injEq] at hpair
      obtain ⟨rfl, rfl⟩ := hpair
      refine ⟨.string str, ?_, rfl, fun ref hv => by cases hv⟩
      rw [pushvalue, stringindex_fst hS, stringAt_idxOf (hS.subset (mem_stringindex s str))]
      rfl
  | table ref =>
      obtain ⟨⟨tbl, s₁⟩, htbl, heq⟩ := Option.map_eq_some_iff.mp hx
      obtain ⟨rfl, rfl⟩ := Prod.mk.inj heq
      refine ⟨.lightuserdata tbl, rfl, trivial, ?_⟩
      intro ref' hv
      obtain rfl := Object.table.inj hv
      exact ⟨tbl, s, s₁, rfl, htbl, hS⟩
  | lightuserdata ptr => cases hx
  | other typename => cases hx
  | nil =>
      obtain ⟨rfl, -⟩ := Prod.mk.inj (Option.some.inj hx)
      exact ⟨.nil, rfl, trivial, fun ref hv => by cases hv⟩
  | boolean b =>
      obtain ⟨rfl, -⟩ := Prod.mk.inj (Option.some.inj hx)
      exact ⟨.boolean b, rfl, rfl, fun ref hv => by cases hv⟩
  | integer m =>
      obtain ⟨rfl, -⟩ := Prod.mk.inj (Option.some.inj hx)
      exact ⟨.integer m, rfl, rfl, fun ref hv => by cases hv⟩
  | number bits =>
      obtain ⟨rfl, -⟩ := Prod.mk.inj (Option.some.inj hx)
      exact ⟨.number bits, rfl, rfl, fun ref hv => by cases hv⟩

/-! ### Tables that have been made -/

/-- What `convtable` has made of a table. -/
def Converted (heap : Heap) (S : Strings) (tbl : Conf Val) (ref : ℕ) : Prop :=
  ∃ calls s s', convtable heap calls ref s = some (tbl, s') ∧ s' <+: S

theorem Converted.length (h : Converted heap S tbl ref) :
  tbl.array.length = (heap ref).rawlen
  := by
  obtain ⟨calls, s, s', htbl, -⟩ := h
  cases calls with
  | zero => cases htbl
  | succ calls => exact (grows_convert (extends_convtable heap calls) htbl).2

/-- The keys that fit are read as they are in the table. -/
theorem Converted.lindexconf_shows (h : Converted heap S tbl ref) (hkeys : ∀ e ∈ (heap ref).entries, IsShared e.1)
    (hkey : IsShared key) :
  ∃ p, lindexconf tbl S key = some p ∧ Shows (lookup (heap ref).entries key) p
    ∧ ∀ ref', lookup (heap ref).entries key = .table ref' → ∃ tbl', p = .lightuserdata tbl' ∧ Converted heap S tbl' ref'
  := by
  obtain ⟨calls, s, s', htbl, hS⟩ := h
  cases calls with
  | zero => cases htbl
  | succ calls =>
      have hbuilt := convert_built hkeys (fun _ => rfl) (extends_convtable heap calls) htbl hS
      rcases hbuilt.lindexconf_eq hkeys hkey with ⟨e, he, rfl, x, hx, hindex⟩ | ⟨habsent, hindex⟩
      · obtain ⟨p, hp, hshows, htable⟩ := pushvalue_of_produced hx
        rw [Seri.lookup_eq_of_mem he]
        refine ⟨p, hindex.trans hp, hshows, ?_⟩
        intro ref' href'
        obtain ⟨tbl', s₁, s₂, hp', htbl', hS'⟩ := htable ref' href'
        exact ⟨tbl', hp', calls, s₁, s₂, htbl', hS'⟩
      · have hnil : lookup (heap ref).entries key = .nil := by
          by_contra hne
          exact habsent _ (Seri.mem_of_lookup hne) rfl
        rw [hnil]
        exact ⟨.nil, hindex, trivial, fun ref' href' => by cases href'⟩

theorem Converted.iterates (h : Converted heap S tbl ref) (hkeys : ∀ e ∈ (heap ref).entries, IsShared e.1) :
  ∃ keys, Iterates tbl S .nil keys ∧ keys.Perm ((heap ref).entries.map Prod.fst)
  := by
  obtain ⟨calls, s, s', htbl, hS⟩ := h
  cases calls with
  | zero => cases htbl
  | succ calls =>
      have hbuilt := convert_built hkeys (fun _ => rfl) (extends_convtable heap calls) htbl hS
      exact hbuilt.iterates hkeys fun v x hx hv => isNil_of_produced hx hv

/-! ### Keys that do not fit -/

/-- An integer is read as what is left of it. -/
theorem lindexconf_narrow (tbl : Conf Val) (S : Strings) (k : Int64) :
  lindexconf tbl S (.integer (narrow k)) = lindexconf tbl S (.integer k)
  := by
  have hnarrow : (narrow k).toInt32 = k.toInt32 := Int32.toInt32_toInt64 _
  rw [lindexconf, lindexconf, hnarrow]

theorem isShared_of_pushhash {i : ℕ} (h : pushhash tbl S i = some (some key)) :
  IsShared key
  := by
  obtain ⟨n, -, hpush⟩ := slot_of_pushhash h
  rw [pushkey] at hpush
  split at hpush
  · obtain rfl := Option.some.inj hpush
    exact fits_of_toInt32 _
  · obtain ⟨str, -, rfl⟩ := Option.map_eq_some_iff.mp hpush
    trivial

theorem isShared_of_pusharray {i : ℕ} (hlen : tbl.array.length < 2 ^ 31) (h : pusharray tbl S i = some (some key)) :
  IsShared key
  := by
  rw [pusharray] at h
  split at h
  · next j hj =>
      obtain rfl := Option.some.inj (Option.some.inj h)
      obtain ⟨hlt, -⟩ := List.findIdx?_eq_some_iff_getElem.mp hj
      rw [List.length_drop] at hlt
      exact fits_ofNat (by omega)
  · exact isShared_of_pushhash h

theorem isShared_of_pushnext {r : Option (Option ℕ)} (h : pushnext tbl S r = some (some key)) :
  IsShared key
  := by
  rcases r with _ | _ | i
  · cases h
  · cases h
  · exact isShared_of_pushhash h

/-- Only keys that fit are pushed. -/
theorem isShared_of_lnextkey {key' : Object} (hlen : tbl.array.length < 2 ^ 31)
    (h : lnextkey tbl S key = some (some key')) :
  IsShared key'
  := by
  cases key with
  | nil => exact isShared_of_pusharray hlen h
  | integer m =>
      rw [lnextkey] at h
      split at h
      · exact isShared_of_pusharray hlen h
      · exact isShared_of_pushnext h
  | string str => exact isShared_of_pushnext h
  | _ => cases h

theorem Iterates.isShared {l : List Object} (hlen : tbl.array.length < 2 ^ 31) (h : Iterates tbl S key l) :
  ∀ k ∈ l, IsShared k
  := by
  induction h with
  | last h => exact fun k hk => absurd hk List.not_mem_nil
  | next h hl ih =>
      intro k hk
      rcases List.mem_cons.mp hk with rfl | hk
      · exact isShared_of_lnextkey hlen h
      · exact ih k hk

/-- All keys fit if the iteration gives them. -/
theorem SameTable.isShared (h : SameTable wide S tbl (heap ref)) (hconverted : Converted heap S tbl ref) :
  ∀ e ∈ (heap ref).entries, IsShared e.1
  := by
  obtain ⟨keys, hkeys, hperm⟩ := h.iterates
  have hlen : tbl.array.length < 2 ^ 31 := by
    rw [hconverted.length]
    exact (heap ref).rawlen_lt
  intro e he
  exact hkeys.isShared hlen e.1 (hperm.mem_iff.mpr (List.mem_map_of_mem he))

/-! ### The refinement -/

theorem isShared_of_fits (hkey : IsTableKey key) (hfits : ∀ k, key = .integer k → Fits k) :
  IsShared key
  := by
  cases key with
  | integer k => exact hfits k rfl
  | string str => trivial
  | _ => exact hkey.elim

/-- The keys of all tables are copied as they are. -/
theorem Fitting.isShared (h : Fitting heap wide ref) (hconv : Convertible heap ref) (hnested : Nested heap n ref ref') :
  ∀ e ∈ (heap ref').entries, IsShared e.1
  := by
  intro e he
  apply isShared_of_fits (hconv n ref' hnested e he).1
  intro k hk
  apply (h n ref' hnested).1 k e.2
  rw [← hk]
  exact he

/-- What is reached has been made of the table that has the same place. -/
theorem Reached.converted (h : Reached heap S tbl ref tbl' ref')
    (hkeys : ∀ n ref', Nested heap n ref ref' → ∀ e ∈ (heap ref').entries, IsShared e.1)
    (hconverted : Converted heap S tbl ref) :
  Converted heap S tbl' ref' ∧ ∃ n, Nested heap n ref ref'
  := by
  induction h with
  | here tbl ref => exact ⟨hconverted, 0, .here ref⟩
  | @field tbl tbl₁ tbl' ref ref₁ ref' key hkey hindex h ih =>
      have hmem : (key, .table ref₁) ∈ (heap ref).entries := by
        rw [← hkey]
        exact Seri.mem_of_lookup (by rw [hkey]; exact Object.noConfusion)
      obtain ⟨p, hp, -, htable⟩ :=
        hconverted.lindexconf_shows (hkeys 0 ref (.here ref)) (hkeys 0 ref (.here ref) _ hmem)
      obtain ⟨tbl₂, rfl, htbl₂⟩ := htable ref₁ hkey
      obtain rfl : tbl₁ = tbl₂ := Pushed.lightuserdata.inj (Option.some.inj (hindex.symm.trans hp))
      obtain ⟨hc, n, hn⟩ := ih (fun n ref' hn => hkeys (n + 1) ref' (.field hmem hn)) htbl₂
      exact ⟨hc, n + 1, .field hmem hn⟩

theorem shows_nil (h : Shows .nil p) :
  p = .nil
  := by
  cases p with
  | nil => rfl
  | _ => exact h.elim

theorem eq_nil_of_shows (h : Shows v .nil) :
  v = .nil
  := by
  cases v with
  | nil => rfl
  | _ => exact h.elim

theorem lookup_eq_nil {t : Table} {k : Int64} (hkeys : ∀ e ∈ t.entries, IsShared e.1) (hk : ¬ Fits k) :
  lookup t.entries (.integer k) = .nil
  := by
  by_contra hne
  exact hk (hkeys _ (Seri.mem_of_lookup hne))

/-- A table whose keys fit is the same as what has been made of it. -/
theorem Converted.sameTable (h : Converted heap S tbl ref) (hkeys : ∀ e ∈ (heap ref).entries, IsShared e.1)
    (hwide : ∀ k, wide k → ¬ Fits k → lookup (heap ref).entries (.integer (narrow k)) = .nil) :
  SameTable wide S tbl (heap ref) where
  integer := by
    intro k hk
    by_cases hfits : Fits k
    · have hkey : IsShared (.integer k) := hfits
      obtain ⟨p, hp, hshows, -⟩ := h.lindexconf_shows hkeys hkey
      exact ⟨p, hp, hshows⟩
    · have hkey : IsShared (.integer (narrow k)) := fits_of_toInt32 _
      obtain ⟨p, hp, hshows, -⟩ := h.lindexconf_shows hkeys hkey
      rw [hwide k (hk.resolve_left hfits) hfits] at hshows
      rw [lookup_eq_nil hkeys hfits, ← lindexconf_narrow]
      exact ⟨p, hp, hshows⟩
  string := by
    intro str
    have hkey : IsShared (.string str) := trivial
    obtain ⟨p, hp, hshows, -⟩ := h.lindexconf_shows hkeys hkey
    exact ⟨p, hp, hshows⟩
  iterates := h.iterates hkeys

/-- An integer that does not fit is only asked for where nothing has the key that is left of it. -/
theorem SameTable.lookup_narrow {k : Int64} (h : SameTable wide S tbl (heap ref))
    (hkeys : ∀ e ∈ (heap ref).entries, IsShared e.1) (hk : wide k) (hfits : ¬ Fits k) :
  lookup (heap ref).entries (.integer (narrow k)) = .nil
  := by
  obtain ⟨p, hp, hshows⟩ := h.integer k (Or.inr hk)
  obtain ⟨p', hp', hshows'⟩ := h.integer (narrow k) (Or.inl (fits_of_toInt32 _))
  rw [lookup_eq_nil hkeys hfits] at hshows
  rw [lindexconf_narrow, hp, Option.some.injEq, shows_nil hshows] at hp'
  rw [← hp'] at hshows'
  exact eq_nil_of_shows hshows'

theorem Refines.fitting (h : Refines heap wide S tbl ref) (hconverted : Converted heap S tbl ref) :
  Fitting heap wide ref
  := by
  intro n ref' hnested
  induction hnested generalizing tbl with
  | here ref =>
      have hsame := h tbl ref (.here tbl ref)
      have hkeys := hsame.isShared hconverted
      exact ⟨fun k v hv => hkeys _ hv, fun k hk hfits => hsame.lookup_narrow hkeys hk hfits⟩
  | @field n ref ref₁ ref' key he hnested ih =>
      have hkeys := (h tbl ref (.here tbl ref)).isShared hconverted
      have hlookup : lookup (heap ref).entries key = .table ref₁ := Seri.lookup_eq_of_mem he
      obtain ⟨p, hp, -, htable⟩ := hconverted.lindexconf_shows hkeys (hkeys _ he)
      obtain ⟨tbl₁, rfl, htbl₁⟩ := htable ref₁ hlookup
      exact ih (fun tbl' ref' hreached => h tbl' ref' (.field hlookup hp hreached)) htbl₁

theorem Fitting.refines (h : Fitting heap wide ref) (hconv : Convertible heap ref)
    (hconverted : Converted heap S tbl ref) :
  Refines heap wide S tbl ref
  := by
  intro tbl' ref' hreached
  obtain ⟨hc, n, hn⟩ := hreached.converted (fun n ref' => h.isShared hconv) hconverted
  exact hc.sameTable (h.isShared hconv hn) (h n ref' hn).2

/-- The conversion returns if there are enough calls and the keys fit. -/
theorem convtable_total (hkeys : ∀ n ref', Nested heap n ref ref' → ∀ e ∈ (heap ref').entries, IsShared e.1)
    (hconv : Convertible heap ref) (hsmall : Small heap calls ref) (s : Strings) :
  ∃ r, convtable heap calls ref s = some r
  := by
  induction calls generalizing ref s with
  | zero => exact absurd (hsmall 0 ref (.here ref)).1 (Nat.not_lt_zero 0)
  | succ calls ih =>
      refine convert_total (hkeys 0 ref (.here ref)) (fun _ => rfl) (extends_convtable heap calls) ?_
        (hsmall 0 ref (.here ref)).2 s
      rintro ⟨key, v⟩ he s
      have hvalue := (hconv 0 ref (.here ref) _ he).2
      cases v with
      | table ref₁ =>
          have hrest := ih (fun n ref' hn => hkeys (n + 1) ref' (.field he hn))
            (fun n ref' hn => hconv (n + 1) ref' (.field he hn))
            (fun n ref' hn => ⟨by have hlt := (hsmall (n + 1) ref' (.field he hn)).1; omega,
              (hsmall (n + 1) ref' (.field he hn)).2⟩) s
          obtain ⟨r, hr⟩ := hrest
          exact ⟨_, Option.map_eq_some_iff.mpr ⟨r, hr, rfl⟩⟩
      | integer m => exact ⟨_, rfl⟩
      | number bits => exact ⟨_, rfl⟩
      | string str => exact ⟨_, rfl⟩
      | boolean b => exact ⟨_, rfl⟩
      | _ => exact hvalue.elim

theorem lnewconf_converted {room : ℕ → Bool} (h : lnewconf room calls heap ref = some (tbl, S)) :
  Converted heap S tbl ref
  := by
  rw [lnewconf] at h
  split at h
  · cases h
  · next tbl₁ s₁ htbl =>
      dsimp only at h
      split_ifs at h
      obtain ⟨rfl, rfl⟩ := Prod.mk.inj (Option.some.inj h)
      exact ⟨calls, [], _, htbl, List.prefix_rfl⟩

end

/-- What `lnewconf` returns is the same as the table, precisely when all integer keys fit an `int` and integers that do
not are only asked for where nothing has the key that is left of them; then it returns, unless the stacks run out. -/
theorem shared_table_iff {heap : Heap} {ref : ℕ} (hconv : Convertible heap ref) (room : ℕ → Bool) (calls : ℕ)
    (wide : Int64 → Prop) :
  (∀ tbl S, lnewconf room calls heap ref = some (tbl, S) → (Refines heap wide S tbl ref ↔ Fitting heap wide ref))
    ∧ (Fitting heap wide ref → Small heap calls ref → (∀ n, room n = true) →
      ∃ tbl S, lnewconf room calls heap ref = some (tbl, S))
  := by
  constructor
  · intro tbl S h
    have hconverted := lnewconf_converted h
    exact ⟨fun hrefines => hrefines.fitting hconverted, fun hfitting => hfitting.refines hconv hconverted⟩
  · intro hfitting hsmall hroom
    obtain ⟨⟨tbl, S⟩, htbl⟩ := convtable_total (fun n ref' => hfitting.isShared hconv) hconv hsmall []
    refine ⟨tbl, S, ?_⟩
    rw [lnewconf, htbl]
    exact if_pos (hroom _)

/-- A table with a string and another table, in which are an array and a negative number. -/
def nestedHeap : Heap
  | 0 => ⟨[(.string [97], .table 1), (.integer 0, .string [98])], 0, by decide, by simp [Seri.Object.IsKey], by decide,
      Seri.zero_rawlen_lt, by decide, by decide⟩
  | _ => ⟨[(.integer 1, .boolean true), (.integer (-7), .integer 3)], 1, by decide, by simp [Seri.Object.IsKey],
      by decide, by decide, by decide, by decide⟩

theorem nested_nestedHeap {n ref' : ℕ} (h : Nested nestedHeap n 0 ref') :
  n < 2 ∧ (ref' = 0 ∨ ref' = 1)
  := by
  cases h with
  | here ref => exact ⟨by decide, Or.inl rfl⟩
  | field he h =>
      simp only [nestedHeap, List.mem_cons, Prod.mk.injEq, Object.table.injEq, reduceCtorEq, and_false,
        List.not_mem_nil, or_false] at he
      obtain ⟨-, rfl⟩ := he
      cases h with
      | here ref => exact ⟨by decide, Or.inr rfl⟩
      | field he h => simp [nestedHeap] at he

theorem shared_table_iff_nested :
  ∃ tbl S, lnewconf (fun _ => true) 2 nestedHeap 0 = some (tbl, S)
    ∧ Refines nestedHeap (fun k => k = 2 ^ 40 + 5) S tbl 0
  := by
  have hconv : Convertible nestedHeap 0 := by
    intro n ref' h
    obtain ⟨-, rfl | rfl⟩ := nested_nestedHeap h
    · simp [nestedHeap, IsTableKey, IsTableValue]
    · simp [nestedHeap, IsTableKey, IsTableValue]
  have hfitting : Fitting nestedHeap (fun k => k = 2 ^ 40 + 5) 0 := by
    intro n ref' h
    obtain ⟨-, rfl | rfl⟩ := nested_nestedHeap h
    · refine ⟨?_, fun k hk _ => by rw [hk]; decide⟩
      simp only [nestedHeap, List.mem_cons, Prod.mk.injEq, reduceCtorEq, false_and, Object.integer.injEq, false_or,
        List.not_mem_nil, or_false]
      rintro k v ⟨rfl, -⟩
      decide
    · refine ⟨?_, fun k hk _ => by rw [hk]; decide⟩
      simp only [nestedHeap, List.mem_cons, Prod.mk.injEq, Object.integer.injEq, List.not_mem_nil, or_false]
      rintro k v (⟨rfl, -⟩ | ⟨rfl, -⟩)
      · decide
      · decide
  have hsmall : Small nestedHeap 2 0 := by
    intro n ref' h
    obtain ⟨hn, rfl | rfl⟩ := nested_nestedHeap h
    · exact ⟨hn, by decide⟩
    · exact ⟨hn, by decide⟩
  obtain ⟨hiff, hreturns⟩ := shared_table_iff hconv (fun _ => true) 2 fun k => k = 2 ^ 40 + 5
  obtain ⟨tbl, S, h⟩ := hreturns hfitting hsmall fun _ => rfl
  exact ⟨tbl, S, h, (hiff tbl S h).mpr hfitting⟩

/-- A table with the key 2 ^ 32. -/
def wideHeap : Heap :=
  fun _ => ⟨[(.integer (2 ^ 32), .boolean true)], 0, by decide, by simp [Seri.Object.IsKey], by decide,
    Seri.zero_rawlen_lt, by decide, by decide⟩

/-- The key becomes 0. -/
theorem wide_key_narrowed :
  Convertible wideHeap 0 ∧ ∃ tbl S, lnewconf (fun _ => true) 1 wideHeap 0 = some (tbl, S)
    ∧ lindexconf tbl S (.integer 0) = some (.boolean true) ∧ lookup (wideHeap 0).entries (.integer 0) = .nil
    ∧ ¬ Refines wideHeap (fun _ => True) S tbl 0
  := by
  refine ⟨?_, _, _, rfl, rfl, by decide, ?_⟩
  · intro n ref' _
    simp [wideHeap, IsTableKey, IsTableValue]
  · intro h
    obtain ⟨p, hp, hshows⟩ := (h _ 0 (.here _ 0)).integer 0 (Or.inr trivial)
    obtain rfl := Option.some.inj hp
    exact hshows

end Sharedata

end Skynet
