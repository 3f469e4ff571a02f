import FWServer.Skynet.SharedSlots

/-!
# Reading a shared table

`lindexconf` and `lnextkey` on what `convtable` has built of a table whose integer keys fit an `int`.
-/

namespace Skynet

namespace Sharedata

open Seri (Object Table lookup)
open Chains (Chain Chained)

/-- What is looked up for a key. -/
def toLookup : Object → Lookup
  | .integer n => .integer n.toInt32
  | key => .string (tolstring key)

/-- A step of the iteration after another, to the end. -/
inductive Iterates (tbl : Conf Val) (strings : Strings) : Object → List Object → Prop
  | last {key : Object} (h : lnextkey tbl strings key = some none) : Iterates tbl strings key []
  | next {key key' : Object} {l : List Object} (h : lnextkey tbl strings key = some (some key'))
      (hl : Iterates tbl strings key' l) : Iterates tbl strings key (key' :: l)

section

variable {set : Object → Strings → Option (Val × Strings)} {S : Strings} {t : Table} {tbl : Conf Val} {key : Object}
  {i j : ℕ} {n : Node Val} {e : Object × Object}

/-! ### Keys -/

theorem keyhash_of_placed {sizearray : ℕ} {k : NodeKey} {keyhash : UInt32} (h : IsShared key)
    (hplaced : placed S sizearray key = .hash k keyhash) :
  (toLookup key).keyhash = keyhash
  := by
  cases key with
  | integer n =>
      rw [placed, placeOf] at hplaced
      split_ifs at hplaced
      exact (Place.hash.inj hplaced).2
  | string s => exact (Place.hash.inj hplaced).2
  | _ => exact h.elim

/-- The node of an entry is the one that is looked for precisely when the key is that of the entry. -/
theorem isKey_iff (h : IsShared key) (he : IsShared e.1) (hn : Stores set S t.rawlen n e) :
  n.isKey S (toLookup key) = true ↔ e.1 = key
  := by
  have hhash := keyhash_of_placed he hn.placed
  have hpush := hn.key
  unfold Node.isKey
  rw [← hhash, Bool.and_eq_true, decide_eq_true_eq]
  rw [pushkey] at hpush
  cases hkey : n.key with
  | integer k =>
      rw [hkey] at hpush
      have heq : e.1 = .integer k.toInt64 := (Option.some.inj hpush).symm
      rw [heq]
      cases key with
      | integer m =>
          have hm : Fits m := h
          constructor
          · rintro ⟨-, hk⟩
            rw [of_decide_eq_true hk, hm]
          · intro hm'
            obtain rfl := Object.integer.inj hm'
            exact ⟨rfl, decide_eq_true (Int32.toInt32_toInt64 k).symm⟩
      | string s => exact iff_of_false (fun hk => Bool.false_ne_true hk.2) Object.noConfusion
      | _ => exact h.elim
  | string index =>
      rw [hkey] at hpush
      obtain ⟨s, hs, heq⟩ := Option.map_eq_some_iff.mp hpush
      rw [← heq]
      cases key with
      | integer m => exact iff_of_false (fun hk => Bool.false_ne_true hk.2) Object.noConfusion
      | string s' =>
          constructor
          · rintro ⟨-, hk⟩
            exact congrArg Object.string (Option.some.inj (hs.symm.trans (of_decide_eq_true hk)))
          · intro hs'
            obtain rfl := Object.string.inj hs'
            exact ⟨rfl, decide_eq_true hs⟩
      | _ => exact h.elim

/-! ### Slots -/

theorem lookupLoop_eq (hash : List (Option (Node Val))) (q : Lookup) (turns i : ℕ) :
  lookupLoop hash S q turns i = Chains.find hash Node.next (fun n => n.isKey S q) turns i
  := by
  induction turns generalizing i with
  | zero => rfl
  | succ turns ih =>
      rw [lookupLoop, Chains.find]
      rcases hash[i]? with _ | _ | n
      · rfl
      · rfl
      · dsimp only
        cases n.isKey S q with
        | true => rfl
        | false =>
            cases n.next with
            | none => rfl
            | some j => exact ih j

variable (h : Built set S t tbl) (hkeys : ∀ e ∈ t.entries, IsShared e.1)
include h

/-- Nodes in different slots have different keys. -/
theorem Built.slot_unique {m : Node Val} (hi : tbl.hash[i]? = some (some n)) (hj : tbl.hash[j]? = some (some m))
    (hkey : pushkey S n = pushkey S m) :
  i = j
  := by
  have hnodup := h.keys.nodup_iff.mpr (nodup_hashKeys S t)
  exact Chains.nodup_map_reduceOption_iff.mp hnodup i j n m hi hj hkey

/-- A key that belongs in a slot is in one. -/
theorem Built.exists_slot {k : NodeKey} {keyhash : UInt32} (he : e ∈ t.entries)
    (hplaced : placed S t.rawlen e.1 = .hash k keyhash) :
  ∃ (i : ℕ) (n : Node Val), tbl.hash[i]? = some (some n) ∧ pushkey S n = some e.1
  := by
  have hmem : some e.1 ∈ (t.entries.filter fun e => (placed S t.rawlen e.1).isHash).map fun e => some e.1 :=
    List.mem_map.mpr ⟨e, List.mem_filter.mpr ⟨he, by rw [hplaced]; rfl⟩, rfl⟩
  obtain ⟨n, hn, hpush⟩ := List.mem_map.mp (h.keys.mem_iff.mpr hmem)
  obtain ⟨i, hi⟩ := Chains.mem_reduceOption.mp hn
  exact ⟨i, n, hi, hpush⟩

include hkeys

/-- A key is found in its slot. -/
theorem Built.lookupKey_some (hkey : IsShared key) (hi : tbl.hash[i]? = some (some n))
    (hpush : pushkey S n = some key) :
  lookupKey tbl S (toLookup key) = some (some i)
  := by
  obtain ⟨head, hchained⟩ := h.chained
  obtain ⟨e, he, hn⟩ := h.stored i n hi
  obtain rfl : e.1 = key := Option.some.inj (hn.key.symm.trans hpush)
  have hhash := keyhash_of_placed hkey hn.placed
  have hlen := (List.getElem?_eq_some_iff.mp hi).1
  have htest : ∀ (q : ℕ) m, tbl.hash[q]? = some (some m) → (m.isKey S (toLookup e.1) = true ↔ q = i) := by
    intro q m hq
    obtain ⟨e', he', hm⟩ := h.stored q m hq
    rw [isKey_iff hkey (hkeys e' he') hm]
    constructor
    · intro heq
      exact h.slot_unique hq hi (by rw [hm.key, hn.key, heq])
    · rintro rfl
      obtain rfl := Option.some.inj (Option.some.inj (hi.symm.trans hq))
      exact Option.some.inj (hm.key.symm.trans hn.key)
  have hfind := hchained.find_home hi htest
  obtain ⟨-, l, hl, hmem⟩ := hchained.home i n hi
  obtain ⟨m, hm⟩ := hl.filled List.mem_cons_self
  rw [lookupKey, if_neg (by omega), hhash]
  rw [Node.home] at hl hm hmem hfind
  dsimp only
  rw [hm]
  dsimp only
  rw [if_neg, lookupLoop_eq, hfind]
  rintro ⟨hne, hsingle⟩
  -- then nothing comes after the main position
  cases hl with
  | last h' hnext =>
      rw [List.mem_singleton.mp hmem, hm] at hi
      exact hne (congrArg Node.keyhash (Option.some.inj (Option.some.inj hi)).symm)
  | link h' hnext hl =>
      obtain rfl := Option.some.inj (Option.some.inj (h'.symm.trans hm))
      cases (h.single _ _ hm hsingle).symm.trans hnext

/-- A key that is not in the table is not found. -/
theorem Built.lookupKey_none (hkey : IsShared key) (habsent : ∀ e ∈ t.entries, e.1 ≠ key) :
  lookupKey tbl S (toLookup key) = some none
  := by
  obtain ⟨head, hchained⟩ := h.chained
  rw [lookupKey]
  split_ifs with hzero
  · rfl
  · obtain ⟨n, hn⟩ := h.full ((toLookup key).keyhash.toNat % tbl.hash.length) (Nat.mod_lt _ (by omega))
    have htest : ∀ (q : ℕ) m, tbl.hash[q]? = some (some m) → m.isKey S (toLookup key) = false := by
      intro q m hq
      obtain ⟨e, he, hm⟩ := h.stored q m hq
      rw [Bool.eq_false_iff]
      intro htest
      exact habsent e he ((isKey_iff hkey (hkeys e he) hm).mp htest)
    dsimp only
    rw [hn]
    dsimp only
    split_ifs
    · rfl
    · rw [lookupLoop_eq, hchained.find_none hn htest]

/-! ### Where a key is looked for -/

omit hkeys in
theorem Built.read_hash {k : NodeKey} {keyhash : UInt32} (hkey : IsShared key)
    (hplaced : placed S t.rawlen key = .hash k keyhash) :
  lindexconf tbl S key = pushslot tbl S (lookupKey tbl S (toLookup key))
    ∧ lnextkey tbl S key = pushnext tbl S (lookupKey tbl S (toLookup key))
  := by
  cases key with
  | integer m =>
      rw [placed, ← h.array.length] at hplaced
      rw [lindexconf, lnextkey, hplaced]
      exact ⟨rfl, rfl⟩
  | string s => exact ⟨rfl, rfl⟩
  | _ => exact hkey.elim

omit hkeys in
theorem Built.read_array (hpos : 0 < j) (hle : j ≤ t.rawlen) :
  lindexconf tbl S (.integer (Int64.ofNat j)) = (tbl.array[j - 1]?).bind (pushvalue S)
    ∧ lnextkey tbl S (.integer (Int64.ofNat j)) = pusharray tbl S j
  := by
  have hplaced := placed_ofNat (S := S) hpos hle (by have hlt := t.rawlen_lt; omega)
  rw [placed, ← h.array.length] at hplaced
  rw [lindexconf, lnextkey, hplaced]
  exact ⟨rfl, rfl⟩

/-! ### `lindexconf` -/

/-- What is read for a key is what has been copied for it, or `nil`. -/
theorem Built.lindexconf_eq (hkey : IsShared key) :
  (∃ e ∈ t.entries, e.1 = key ∧ ∃ x, Produced set S e.2 x ∧ lindexconf tbl S key = pushvalue S x)
    ∨ (∀ e ∈ t.entries, e.1 ≠ key) ∧ lindexconf tbl S key = some .nil
  := by
  cases hplaced : placed S t.rawlen key with
  | array j =>
      obtain ⟨rfl, hpos, hle⟩ := eq_ofNat_of_placed hkey hplaced
      obtain ⟨x, hx, hvalue⟩ := h.array.value (j - 1) (by omega)
      have hindex : lindexconf tbl S (.integer (Int64.ofNat j)) = pushvalue S x := by
        rw [(h.read_array hpos hle).1, hx, Option.bind_some]
      rw [ValueAt, Nat.sub_add_cancel hpos] at hvalue
      rcases hvalue with ⟨e, he, hkey, hx⟩ | ⟨hnone, rfl⟩
      · exact Or.inl ⟨e, he, hkey, x, hx, hindex⟩
      · exact Or.inr ⟨hnone, hindex⟩
  | hash k keyhash =>
      rw [(h.read_hash hkey hplaced).1]
      by_cases hmem : ∃ e ∈ t.entries, e.1 = key
      · obtain ⟨e, he, rfl⟩ := hmem
        obtain ⟨i, n, hi, hpush⟩ := h.exists_slot he hplaced
        obtain ⟨e', he', hn⟩ := h.stored i n hi
        refine Or.inl ⟨e', he', Option.some.inj (hn.key.symm.trans hpush), n.v, hn.value, ?_⟩
        rw [h.lookupKey_some hkeys hkey hi hpush, pushslot, hi]
      · have habsent : ∀ e ∈ t.entries, e.1 ≠ key := fun e he hkey => hmem ⟨e, he, hkey⟩
        rw [h.lookupKey_none hkeys hkey habsent]
        exact Or.inr ⟨habsent, rfl⟩

end

/-! ### `lnextkey` -/

/-- The keys of the elements of an array that are not `nil`, from an index on. -/
def arrayKeys : ℕ → List Val → List Object
  | _, [] => []
  | i, v :: l => if v.isNil then arrayKeys (i + 1) l else .integer (Int64.ofNat (i + 1)) :: arrayKeys (i + 1) l

theorem mem_arrayKeys {key : Object} {i : ℕ} {l : List Val} :
  key ∈ arrayKeys i l ↔ ∃ j x, l[j]? = some x ∧ x.isNil = false ∧ key = .integer (Int64.ofNat (i + j + 1))
  := by
  induction l generalizing i with
  | nil => exact iff_of_false List.not_mem_nil fun ⟨j, x, hx, _⟩ => by cases hx
  | cons v l ih =>
      have htail : (∃ j x, l[j]? = some x ∧ x.isNil = false ∧ key = .integer (Int64.ofNat (i + 1 + j + 1)))
          ↔ ∃ j x, (v :: l)[j + 1]? = some x ∧ x.isNil = false ∧ key = .integer (Int64.ofNat (i + (j + 1) + 1)) := by
        simp only [List.getElem?_cons_succ, Nat.add_assoc, Nat.add_comm 1]
      have hsplit : (∃ j x, (v :: l)[j]? = some x ∧ x.isNil = false ∧ key = .integer (Int64.ofNat (i + j + 1)))
          ↔ (v.isNil = false ∧ key = .integer (Int64.ofNat (i + 1)))
            ∨ ∃ j x, (v :: l)[j + 1]? = some x ∧ x.isNil = false ∧ key = .integer (Int64.ofNat (i + (j + 1) + 1)) := by
        constructor
        · rintro ⟨j, x, hx, hnil, hkey⟩
          cases j with
          | zero =>
              obtain rfl := Option.some.inj hx
              exact Or.inl ⟨hnil, hkey⟩
          | succ j => exact Or.inr ⟨j, x, hx, hnil, hkey⟩
        · rintro (⟨hnil, hkey⟩ | ⟨j, x, hx, hnil, hkey⟩)
          · exact ⟨0, v, rfl, hnil, hkey⟩
          · exact ⟨j + 1, x, hx, hnil, hkey⟩
      rw [hsplit, ← htail, ← ih, arrayKeys]
      split_ifs with hnil
      · rw [hnil]
        exact ⟨Or.inr, fun h => h.resolve_left fun h => Bool.noConfusion h.1⟩
      · rw [List.mem_cons, Bool.eq_false_iff.mpr hnil]
        exact or_congr_left ⟨fun h => ⟨rfl, h⟩, And.right⟩

theorem nodup_arrayKeys {i : ℕ} {l : List Val} (h : i + l.length < 2 ^ 31) :
  (arrayKeys i l).Nodup
  := by
  induction l generalizing i with
  | nil => exact List.nodup_nil
  | cons v l ih =>
      rw [List.length_cons] at h
      have htail := ih (i := i + 1) (by omega)
      rw [arrayKeys]
      split_ifs
      · exact htail
      · refine List.nodup_cons.mpr ⟨?_, htail⟩
        intro hmem
        obtain ⟨j, x, hx, -, heq⟩ := mem_arrayKeys.mp hmem
        have hlen := (List.getElem?_eq_some_iff.mp hx).1
        have hints := congrArg Int64.toInt (Object.integer.inj heq)
        rw [Int64.toInt_ofNat_of_lt (by omega), Int64.toInt_ofNat_of_lt (by omega)] at hints
        omega

section

variable {set : Object → Strings → Option (Val × Strings)} {S : Strings} {t : Table} {tbl : Conf Val}

theorem pusharray_cons {i : ℕ} {v : Val} {l : List Val} (h : tbl.array.drop i = v :: l) :
  pusharray tbl S i = if v.isNil then pusharray tbl S (i + 1) else some (some (.integer (Int64.ofNat (i + 1))))
  := by
  have htail : tbl.array.drop (i + 1) = l := by rw [← List.tail_drop, h, List.tail_cons]
  rw [pusharray, pusharray, h, htail, List.findIdx?_cons]
  cases v.isNil with
  | true =>
      simp only [Bool.not_true, Bool.false_eq_true, if_false, if_true]
      cases l.findIdx? fun v => !v.isNil with
      | none => rfl
      | some j =>
          simp only [Option.map_some]
          rw [Nat.add_right_comm i 1 j, Nat.add_assoc i j 1]
  | false => rfl

/-- The slots are gone through one after another. -/
theorem iterates_hash {ks : List Object} (hks : ∀ i, pushhash tbl S i = some ks[i]?)
    (hnext : ∀ i key, ks[i]? = some key → lnextkey tbl S key = pushhash tbl S (i + 1)) {l : List Object} {i : ℕ}
    {key : Object} (hl : ks.drop i = l) (hkey : lnextkey tbl S key = pushhash tbl S i) :
  Iterates tbl S key l
  := by
  rw [hks] at hkey
  induction l generalizing i key with
  | nil =>
      rw [List.getElem?_eq_none (List.drop_eq_nil_iff.mp hl)] at hkey
      exact .last hkey
  | cons k l ih =>
      have hk : ks[i]? = some k := by rw [← List.head?_drop, hl, List.head?_cons]
      rw [hk] at hkey
      exact .next hkey (ih (by rw [← List.tail_drop, hl, List.tail_cons]) (by rw [hnext i k hk, hks]))

/-- The array is gone through, and then the slots. -/
theorem Built.iterates_array (h : Built set S t tbl) {ks : List Object} (hks : ∀ i, pushhash tbl S i = some ks[i]?)
    (hnext : ∀ i key, ks[i]? = some key → lnextkey tbl S key = pushhash tbl S (i + 1)) {l : List Val} {i : ℕ}
    {key : Object} (hl : tbl.array.drop i = l) (hkey : lnextkey tbl S key = pusharray tbl S i) :
  Iterates tbl S key (arrayKeys i l ++ ks)
  := by
  induction l generalizing i key with
  | nil =>
      have hpush : pusharray tbl S i = pushhash tbl S 0 := by
        rw [pusharray, hl]
        rfl
      rw [hpush] at hkey
      exact iterates_hash hks hnext (List.drop_zero ..) hkey
  | cons v l ih =>
      have htail : tbl.array.drop (i + 1) = l := by rw [← List.tail_drop, hl, List.tail_cons]
      have hlen : i < tbl.array.length := by
        by_contra hge
        rw [List.drop_eq_nil_of_le (Nat.le_of_not_lt hge)] at hl
        cases hl
      rw [h.array.length] at hlen
      rw [pusharray_cons hl] at hkey
      rw [arrayKeys]
      split_ifs at hkey ⊢ with hnil
      · exact ih htail hkey
      · exact .next hkey (ih htail (h.read_array (Nat.succ_pos i) hlen).2)

/-- No slot is empty, so each has a key. -/
theorem Built.exists_hashKeys (h : Built set S t tbl) :
  ∃ ks : List Object, tbl.hash.reduceOption.map (pushkey S) = ks.map some ∧ ∀ i, pushhash tbl S i = some ks[i]?
  := by
  have hfull : ∀ x ∈ tbl.hash, ∃ n, x = some n := by
    intro x hx
    obtain ⟨i, hi⟩ := List.mem_iff_getElem?.mp hx
    obtain ⟨n, hn⟩ := h.full i (List.getElem?_eq_some_iff.mp hi).1
    exact ⟨n, Option.some.inj (hi.symm.trans hn)⟩
  obtain ⟨ns, hns⟩ := Chains.exists_eq_map_some hfull
  have hkeys : ∀ x ∈ ns.map (pushkey S), ∃ k, x = some k := by
    intro x hx
    obtain ⟨n, hn, rfl⟩ := List.mem_map.mp hx
    obtain ⟨i, hi⟩ := List.mem_iff_getElem?.mp hn
    obtain ⟨e, -, hstores⟩ := h.stored i n (by rw [hns, List.getElem?_map, hi]; rfl)
    exact ⟨e.1, hstores.key⟩
  obtain ⟨ks, hks⟩ := Chains.exists_eq_map_some hkeys
  refine ⟨ks, by rw [hns, Chains.reduceOption_map_some, hks], ?_⟩
  intro i
  have hi : (ns.map (pushkey S))[i]? = (ks.map some)[i]? := by rw [hks]
  rw [List.getElem?_map, List.getElem?_map] at hi
  rw [pushhash, hns, List.getElem?_map]
  cases hn : ns[i]? with
  | none =>
      rw [hn] at hi
      rw [Option.map_eq_none_iff.mp hi.symm]
      rfl
  | some n =>
      rw [hn, Option.map_some] at hi
      obtain ⟨k, hk, hpush⟩ := Option.map_eq_some_iff.mp hi.symm
      rw [hk]
      exact congrArg (Option.map some) hpush.symm

theorem slot_of_pushhash {i : ℕ} {key : Object} (h : pushhash tbl S i = some (some key)) :
  ∃ n, tbl.hash[i]? = some (some n) ∧ pushkey S n = some key
  := by
  rw [pushhash] at h
  split at h
  · cases h
  · cases h
  · next n hn =>
      obtain ⟨k, hk, heq⟩ := Option.map_eq_some_iff.mp h
      exact ⟨n, hn, by rw [hk, Option.some.inj heq]⟩

/-- The keys of the array are those that belong there. -/
theorem Built.arrayKeys_perm (h : Built set S t tbl) (hkeys : ∀ e ∈ t.entries, IsShared e.1)
    (hnil : ∀ v x, Produced set S v x → v ≠ .nil → x.isNil = false) :
  (arrayKeys 0 tbl.array).Perm ((t.entries.filter fun e => !(placed S t.rawlen e.1).isHash).map Prod.fst)
  := by
  have hlength := h.array.length
  have hlt := t.rawlen_lt
  have hsub : (t.entries.filter fun e => !(placed S t.rawlen e.1).isHash).Sublist t.entries := List.filter_sublist
  rw [List.perm_ext_iff_of_nodup (nodup_arrayKeys (by omega)) (t.keys_nodup.sublist (hsub.map Prod.fst))]
  intro key
  rw [mem_arrayKeys]
  constructor
  · rintro ⟨j, x, hx, hfull, rfl⟩
    have hj := (List.getElem?_eq_some_iff.mp hx).1
    obtain ⟨y, hy, hvalue⟩ := h.array.value j (by omega)
    obtain rfl := Option.some.inj (hx.symm.trans hy)
    rw [Nat.zero_add]
    rcases hvalue with ⟨e, he, hkey, -⟩ | ⟨-, rfl⟩
    · refine List.mem_map.mpr ⟨e, List.mem_filter.mpr ⟨he, ?_⟩, hkey⟩
      rw [hkey, placed_ofNat (Nat.succ_pos j) (by omega) (by omega)]
      rfl
    · cases hfull
  · intro hmem
    obtain ⟨e, he, rfl⟩ := List.mem_map.mp hmem
    obtain ⟨he, harray⟩ := List.mem_filter.mp he
    cases hplaced : placed S t.rawlen e.1 with
    | array j =>
        obtain ⟨hkey, hpos, hle⟩ := eq_ofNat_of_placed (hkeys e he) hplaced
        obtain ⟨x, hx, hvalue⟩ := h.array.value (j - 1) (by omega)
        rw [ValueAt, Nat.sub_add_cancel hpos] at hvalue
        rcases hvalue with ⟨e', he', hkey', hx'⟩ | ⟨hnone, -⟩
        · refine ⟨j - 1, x, hx, hnil e'.2 x hx' (t.value_ne_nil e' he'), ?_⟩
          rw [hkey, Nat.zero_add, Nat.sub_add_cancel hpos]
        · exact absurd hkey (hnone e he)
    | hash k keyhash =>
        rw [hplaced] at harray
        cases harray

/-- The iteration gives every key once, and ends. -/
theorem Built.iterates (h : Built set S t tbl) (hkeys : ∀ e ∈ t.entries, IsShared e.1)
    (hnil : ∀ v x, Produced set S v x → v ≠ .nil → x.isNil = false) :
  ∃ keys, Iterates tbl S .nil keys ∧ keys.Perm (t.entries.map Prod.fst)
  := by
  obtain ⟨ks, hmap, hks⟩ := h.exists_hashKeys
  have hnext : ∀ i key, ks[i]? = some key → lnextkey tbl S key = pushhash tbl S (i + 1) := by
    intro i key hkey
    obtain ⟨n, hn, hpush⟩ := slot_of_pushhash (by rw [hks i, hkey])
    obtain ⟨e, he, hstores⟩ := h.stored i n hn
    obtain rfl : e.1 = key := Option.some.inj (hstores.key.symm.trans hpush)
    rw [(h.read_hash (hkeys e he) hstores.placed).2, h.lookupKey_some hkeys (hkeys e he) hn hpush]
    rfl
  have hhash : ks.Perm ((t.entries.filter fun e => (placed S t.rawlen e.1).isHash).map Prod.fst) := by
    have hperm := h.keys
    rw [hmap] at hperm
    apply (List.map_perm_map_iff (Option.some_injective Object)).mp
    rw [List.map_map]
    exact hperm
  refine ⟨arrayKeys 0 tbl.array ++ ks, h.iterates_array hks hnext (List.drop_zero ..) rfl, ?_⟩
  have hsplit := (List.filter_append_perm (fun e => (placed S t.rawlen e.1).isHash) t.entries).map Prod.fst
  rw [List.map_append] at hsplit
  exact (((h.arrayKeys_perm hkeys hnil).append hhash).trans List.perm_append_comm).trans hsplit

end

end Sharedata

end Skynet
