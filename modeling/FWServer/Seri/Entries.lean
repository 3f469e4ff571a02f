import FWServer.Seri.Pack

/-!
# The entries of a table

A table is packed as the objects at the indices of its array part and its other entries.  `entries_perm`
says that these are its entries, none twice, once the `nil`s of the array part are dropped; and
`setAll_equals` that setting equal keys to equal values, one after another, gives equal entries, because no
key is set twice.
-/

namespace Seri

/-! ### Equal keys -/

section

variable {heap : Heap} {o o' : Object} {v v' : Value}

theorem Equals.isNil_iff (h : Equals heap o v) :
  v.isNil = true ↔ o = .nil
  := by
  cases h <;> simp [Value.isNil]

theorem Equals.isNil_of_isKey (h : Equals heap o v) (hkey : o.IsKey) :
  v.isNil = false
  := by
  cases h with
  | nil => exact absurd hkey id
  | _ => rfl

theorem Equals.isNaN_of_isKey (h : Equals heap o v) (hkey : o.IsKey) :
  v.isNaN = false
  := by
  cases h with
  | number bits => exact hkey.1
  | _ => rfl

/-- A key is stored as it was. -/
theorem Equals.normal_of_isKey (h : Equals heap o v) (hkey : o.IsKey) :
  v.normal = v
  := by
  cases h with
  | number bits => rw [Value.normal, hkey.2]
  | _ => rfl

/-- Keys that a table takes to be the same come from one object. -/
theorem Equals.eq_of_same (h : Equals heap o v) (h' : Equals heap o' v')
    (hsame : v.same v' = true) :
  o = o'
  := by
  cases h <;> cases h' <;> simp_all [Value.same]

/-! ### Setting keys -/

/-- To set a new key appends the entry, or nothing if the value is `nil`. -/
theorem set_equals {es : List (Object × Object)} {entries : List (Value × Value)}
    (hes : List.Forall₂ (EntryEquals heap) es entries) (hk : Equals heap o v) (hkey : o.IsKey)
    (hnew : ∀ e ∈ es, e.1 ≠ o) (hv : Equals heap o' v') :
  List.Forall₂ (EntryEquals heap) (es ++ [(o, o')].filter fun e => e.2 ≠ .nil)
    (Value.set entries v v')
  := by
  have hfilter : (entries.filter fun w => !w.1.same v.normal) = entries := by
    rw [List.filter_eq_self, hk.normal_of_isKey hkey]
    induction hes with
    | nil => exact fun _ h => nomatch h
    | cons hew _ ih =>
        intro w hw
        rcases List.mem_cons.mp hw with rfl | hw
        · obtain ⟨hkey', -⟩ := hew
          rw [Bool.not_eq_true', Bool.eq_false_iff]
          intro hsame
          exact hnew _ List.mem_cons_self (hkey'.eq_of_same hk hsame)
        · exact ih (fun e he => hnew e (List.mem_cons_of_mem _ he)) w hw
  unfold Value.set
  rw [hfilter, hk.normal_of_isKey hkey]
  by_cases hnil : o' = .nil
  · have hdrop : ([(o, o')].filter fun e => e.2 ≠ .nil) = [] := by simp [hnil]
    rw [if_pos (hv.isNil_iff.mpr hnil), hdrop, List.append_nil]
    exact hes
  · have hkeep : ([(o, o')].filter fun e => e.2 ≠ .nil) = [(o, o')] := by simp [hnil]
    rw [if_neg fun h => hnil (hv.isNil_iff.mp h), hkeep]
    exact List.rel_append hes (.cons ⟨hk, hv⟩ .nil)

/-- Entries are set one after another. -/
def setAll (entries pairs : List (Value × Value)) : List (Value × Value) :=
  pairs.foldl (fun es w => Value.set es w.1 w.2) entries

theorem setAll_equals {pairs : List (Object × Object)} {ws : List (Value × Value)}
    (hpairs : List.Forall₂ (EntryEquals heap) pairs ws) (hkeys : ∀ e ∈ pairs, e.1.IsKey)
    (hnodup : (pairs.map Prod.fst).Nodup) {es : List (Object × Object)}
    {entries : List (Value × Value)} (hes : List.Forall₂ (EntryEquals heap) es entries)
    (hnew : ∀ e ∈ es, ∀ p ∈ pairs, e.1 ≠ p.1) :
  List.Forall₂ (EntryEquals heap) (es ++ pairs.filter fun e => e.2 ≠ .nil) (setAll entries ws)
  := by
  induction hpairs generalizing es entries with
  | nil =>
      rw [List.filter_nil, List.append_nil]
      exact hes
  | @cons p w pairs ws hpw hpairs ih =>
      obtain ⟨hk, hv⟩ := hpw
      obtain ⟨hfresh, hnodup⟩ := List.nodup_cons.mp hnodup
      have hone := set_equals hes hk (hkeys p List.mem_cons_self)
        (fun e he => hnew e he p List.mem_cons_self) hv
      have hcons : p :: pairs = [p] ++ pairs := rfl
      rw [hcons, List.filter_append, ← List.append_assoc]
      apply ih (fun e he => hkeys e (List.mem_cons_of_mem p he)) hnodup hone
      intro e he q hq
      rcases List.mem_append.mp he with he | he
      · exact hnew e he q (List.mem_cons_of_mem p hq)
      · rw [List.mem_singleton.mp (List.mem_of_mem_filter he)]
        intro heq
        apply hfresh
        rw [heq]
        exact List.mem_map_of_mem hq

end

/-! ### The array part and the other entries -/

/-- The entries of an array part from the index `i` on. -/
def arrayPairs : ℕ → List Value → List (Value × Value)
  | _, [] => []
  | i, v :: vs => (.integer (Int64.ofNat i), v) :: arrayPairs (i + 1) vs

namespace Table

variable (t : Table)

/-- What is at the indices from `i` on. -/
def arrayObjects (i k : ℕ) : List (Object × Object) :=
  (List.range' i k).map fun j => (.integer (Int64.ofNat j), t.rawgeti j)

/-- The entries that are not in the array part. -/
def hashObjects : List (Object × Object) :=
  t.entries.filter fun e => !e.1.inArray t.rawlen

end Table

theorem arrayPairs_equals {heap : Heap} (t : Table) {i k : ℕ} {vs : List Value}
    (h : List.Forall₂ (fun j v => Equals heap (t.rawgeti j) v) (List.range' i k) vs) :
  List.Forall₂ (EntryEquals heap) (t.arrayObjects i k) (arrayPairs i vs)
  := by
  induction k generalizing i vs with
  | zero =>
      cases h
      exact .nil
  | succ k ih =>
      cases h with
      | cons hv hvs => exact .cons ⟨.integer _, hv⟩ (ih hvs)

section

variable {t : Table}

theorem inArray_iff {o : Object} {n : ℕ} :
  o.inArray n = true ↔ ∃ x : Int64, o = .integer x ∧ 0 < x.toInt ∧ x.toInt ≤ n
  := by
  cases o <;> simp [Object.inArray]

/-- The integers of an array part are its indices. -/
theorem inArray_iff_index {o : Object} :
  o.inArray t.rawlen = true ↔ ∃ j ∈ List.range' 1 t.rawlen, o = .integer (Int64.ofNat j)
  := by
  have hlt := t.rawlen_lt
  constructor
  · intro h
    obtain ⟨x, rfl, hpos, hle⟩ := inArray_iff.mp h
    use x.toInt.toNat
    constructor
    · rw [List.mem_range'_1]
      omega
    · rw [← Int64.ofInt_eq_ofNat, Int.toNat_of_nonneg (Int.le_of_lt hpos), Int64.ofInt_toInt]
  · rintro ⟨j, hj, rfl⟩
    rw [List.mem_range'_1] at hj
    have hint : (Int64.ofNat j).toInt = j := Int64.toInt_ofNat_of_lt (by omega)
    exact inArray_iff.mpr ⟨_, rfl, by omega, by omega⟩

/-- A key has one value. -/
theorem lookup_eq_of_mem {e : Object × Object} (he : e ∈ t.entries) :
  lookup t.entries e.1 = e.2
  := by
  unfold lookup
  cases hfind : t.entries.find? fun x => x.1 = e.1 with
  | none =>
      have hnone := List.find?_eq_none.mp hfind e he
      exact absurd (decide_eq_true rfl) hnone
  | some x =>
      have hfound := List.find?_some hfind
      have hkey : x.1 = e.1 := of_decide_eq_true hfound
      have hmem := List.mem_of_find?_eq_some hfind
      exact congrArg Prod.snd (List.inj_on_of_nodup_map t.keys_nodup hmem he hkey)

/-- A key whose value is not `nil` has an entry. -/
theorem mem_of_lookup {k : Object} (h : lookup t.entries k ≠ .nil) :
  (k, lookup t.entries k) ∈ t.entries
  := by
  unfold lookup at h ⊢
  cases hfind : t.entries.find? fun x => x.1 = k with
  | none =>
      rw [hfind] at h
      exact absurd rfl h
  | some x =>
      have hfound := List.find?_some hfind
      have hkey : x.1 = k := of_decide_eq_true hfound
      have hmem := List.mem_of_find?_eq_some hfind
      rw [← hkey]
      exact hmem

/-- No key is packed twice. -/
theorem keys_nodup :
  ((t.arrayObjects 1 t.rawlen ++ t.hashObjects).map Prod.fst).Nodup
  := by
  have hlt := t.rawlen_lt
  have harray : ((t.arrayObjects 1 t.rawlen).map Prod.fst).Nodup := by
    rw [Table.arrayObjects, List.map_map]
    apply List.Nodup.map_on _ List.nodup_range'
    intro i hi j hj hij
    rw [List.mem_range'_1] at hi hj
    have hkeys : Int64.ofNat i = Int64.ofNat j := Object.integer.inj hij
    have hints := congrArg Int64.toInt hkeys
    rw [Int64.toInt_ofNat_of_lt (by omega), Int64.toInt_ofNat_of_lt (by omega)] at hints
    omega
  have hhash : (t.hashObjects.map Prod.fst).Nodup :=
    t.keys_nodup.sublist ((List.filter_sublist).map Prod.fst)
  rw [List.map_append]
  apply harray.append hhash
  intro k hk hk'
  obtain ⟨e, he, rfl⟩ := List.mem_map.mp hk
  obtain ⟨j, hj, rfl⟩ := List.mem_map.mp he
  obtain ⟨e', he', hkey⟩ := List.mem_map.mp hk'
  have hout := (List.mem_filter.mp he').2
  rw [hkey, inArray_iff_index.mpr ⟨j, hj, rfl⟩] at hout
  cases hout

/-- What is packed of a table are its entries. -/
theorem entries_perm :
  t.entries.Perm ((t.arrayObjects 1 t.rawlen ++ t.hashObjects).filter fun e => e.2 ≠ .nil)
  := by
  have hnodup : ((t.arrayObjects 1 t.rawlen ++ t.hashObjects).filter fun e => e.2 ≠ .nil).Nodup :=
    (List.Nodup.of_map _ keys_nodup).filter _
  apply (List.perm_ext_iff_of_nodup (List.Nodup.of_map _ t.keys_nodup) hnodup).mpr
  intro e
  rw [List.mem_filter, List.mem_append, decide_eq_true_iff]
  constructor
  · intro he
    use ?_, t.value_ne_nil e he
    cases harray : e.1.inArray t.rawlen with
    | false => exact Or.inr (List.mem_filter.mpr ⟨he, by rw [harray]; rfl⟩)
    | true =>
        obtain ⟨j, hj, hkey⟩ := inArray_iff_index.mp harray
        left
        apply List.mem_map.mpr
        use j, hj
        rw [Table.rawgeti, ← hkey, lookup_eq_of_mem he]
  · rintro ⟨he | he, hvalue⟩
    · obtain ⟨j, hj, rfl⟩ := List.mem_map.mp he
      exact mem_of_lookup hvalue
    · exact List.mem_of_mem_filter he

/-- What is packed of a table has keys. -/
theorem isKey_of_mem {e : Object × Object} (he : e ∈ t.arrayObjects 1 t.rawlen ++ t.hashObjects) :
  e.1.IsKey
  := by
  rcases List.mem_append.mp he with he | he
  · obtain ⟨j, hj, rfl⟩ := List.mem_map.mp he
    exact trivial
  · exact t.isKey e (List.mem_of_mem_filter he)

end

end Seri
