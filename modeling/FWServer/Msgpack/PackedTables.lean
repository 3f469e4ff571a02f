import FWServer.Msgpack.Packers
import FWServer.Seri.Entries
import Mathlib.Algebra.GroupWithZero.Nat
import Mathlib.Algebra.Order.BigOperators.Group.List
import Mathlib.Algebra.Order.Group.Nat
import Mathlib.Algebra.Order.Ring.Nat
import Mathlib.Tactic.Use

/-!
# Tables as MessagePack packs them

A table that is packed as an array has only positive keys, as many as the largest of them says; but they need not be
integers, and what is under the others is not packed.  `Confounded` are the tables with which that happens, and `trim`
leaves of a table what is packed of it.

`equals_iff`: if a value equals an object of which every table is trimmed, then it equals the object itself if and only
if no table inside is confounded.  The entries of all tables inside, counted, are what tells them apart.
-/

namespace MessagePack

open Seri (Object Table Heap Value Equals EntryEquals Inside lookup)

/-! ### The loop over the keys -/

/-- The keys that a loop finds to be positive are at most `max`. -/
theorem foldl_key (keys : List Object) (s : Scan) :
  (keys.foldl Scan.key s).n = s.n + keys.length ∧ s.max ≤ (keys.foldl Scan.key s).max ∧
    ((keys.foldl Scan.key s).is_map = false →
      s.is_map = false ∧ ∀ k ∈ keys, ∃ x, units k = some x ∧ 0 < x ∧ x ≤ (keys.foldl Scan.key s).max)
  := by
  induction keys generalizing s with
  | nil => exact ⟨rfl, Int.le_refl _, fun h => ⟨h, fun _ hk => absurd hk List.not_mem_nil⟩⟩
  | cons k keys ih =>
      obtain ⟨hn, hmax, hmap⟩ := ih (s.key k)
      rw [List.foldl_cons]
      have hkey : (s.key k).n = s.n + 1 ∧ s.max ≤ (s.key k).max ∧
          ((s.key k).is_map = false → s.is_map = false ∧ ∃ x, units k = some x ∧ 0 < x ∧ x ≤ (s.key k).max) := by
        unfold Scan.key
        cases hunits : units k with
        | none => exact ⟨rfl, Int.le_refl _, fun h => Bool.noConfusion h⟩
        | some x =>
            dsimp only
            split
            · next hpos =>
                dsimp only
                refine ⟨rfl, ?_, fun h => ⟨h, x, rfl, hpos, ?_⟩⟩ <;> split <;> omega
            · exact ⟨rfl, Int.le_refl _, fun h => Bool.noConfusion h⟩
      obtain ⟨hn', hmax', hmap'⟩ := hkey
      refine ⟨?_, Int.le_trans hmax' hmax, fun h => ?_⟩
      · rw [hn, hn', List.length_cons, Nat.add_assoc, Nat.add_comm 1]
      · obtain ⟨hfalse, hkeys⟩ := hmap h
        obtain ⟨hstart, x, hx, hpos, hle⟩ := hmap' hfalse
        use hstart
        intro k' hk'
        rcases List.mem_cons.mp hk' with rfl | hk'
        · exact ⟨x, hx, hpos, Int.le_trans hle hmax⟩
        · exact hkeys k' hk'

theorem scan_n (tbl : Table) :
  (scan tbl).n = tbl.entries.length
  := by
  rw [scan, (foldl_key _ _).1, Nat.zero_add, List.length_map]

/-- The integers among the keys of a table that is packed as an array are its indices. -/
theorem index_of_array {tbl : Table} (h : isMap tbl = false) {e : Object × Object} (he : e ∈ tbl.entries) {n : Int64}
    (hn : e.1 = .integer n) :
  0 < n.toInt ∧ n.toInt ≤ (scan tbl).n
  := by
  obtain ⟨hfalse, hmax⟩ := Bool.or_eq_false_iff.mp h
  obtain ⟨-, hkeys⟩ := (foldl_key _ _).2.2 hfalse
  obtain ⟨x, hx, hpos, hle⟩ := hkeys e.1 (List.mem_map_of_mem he)
  have heq : (scan tbl).max = (scan tbl).n * 2 ^ 1074 := Decidable.not_not.mp (of_decide_eq_false hmax)
  rw [hn] at hx
  obtain rfl : n.toInt * 2 ^ 1074 = x := Option.some.inj hx
  have hunit : (0 : ℤ) < 2 ^ 1074 := Int.pow_pos (by decide : (0 : ℤ) < 2)
  exact ⟨Int.pos_of_mul_pos_left hpos hunit, Int.le_of_mul_le_mul_right (heq ▸ hle) hunit⟩

/-! ### What is packed of a table -/

/-- Whether the key is an integer. -/
def isInteger : Object → Bool
  | .integer _ => true
  | _ => false

/-- Whether an entry of the table is packed. -/
def packed (tbl : Table) (e : Object × Object) : Bool :=
  isMap tbl || isInteger e.1

/-- What is under an integer is packed. -/
theorem lookup_packed (tbl : Table) (n : Int64) :
  lookup (tbl.entries.filter (packed tbl)) (.integer n) = lookup tbl.entries (.integer n)
  := by
  unfold lookup
  rw [List.find?_filter]
  have hcongr : (fun e : Object × Object => decide (packed tbl e = true ∧ decide (e.1 = .integer n) = true)) =
      fun e => decide (e.1 = .integer n) := by
    funext e
    by_cases he : e.1 = .integer n
    · rw [packed, he]
      simp [isInteger]
    · simp [he]
  rw [hcongr]

/-- What is packed of a table. -/
def trim (tbl : Table) : Table where
  entries := tbl.entries.filter (packed tbl)
  rawlen := tbl.rawlen
  keys_nodup := tbl.keys_nodup.sublist (List.filter_sublist.map Prod.fst)
  isKey e he := tbl.isKey e (List.mem_of_mem_filter he)
  value_ne_nil e he := tbl.value_ne_nil e (List.mem_of_mem_filter he)
  rawlen_lt := tbl.rawlen_lt
  border := by
    rw [lookup_packed]
    exact tbl.border
  border_succ := by
    rw [lookup_packed]
    exact tbl.border_succ

theorem trim_rawgeti (tbl : Table) (i : ℕ) :
  (trim tbl).rawgeti i = tbl.rawgeti i
  := lookup_packed tbl _

theorem trim_of_isMap {tbl : Table} (h : isMap tbl = true) :
  (trim tbl).entries = tbl.entries
  := by
  apply List.filter_eq_self.mpr
  intro e _
  rw [packed, h, Bool.true_or]

/-- No index of an array is an element's twice. -/
theorem arrayObjects_nodup (tbl : Table) {n : ℕ} (hle : n ≤ 0xFFFFFFFF) :
  ((tbl.arrayObjects 1 n).map Prod.fst).Nodup
  := by
  rw [Table.arrayObjects, List.map_map]
  apply List.Nodup.map_on _ List.nodup_range'
  intro i hi j hj hij
  rw [List.mem_range'_1] at hi hj
  have hkeys : Int64.ofNat i = Int64.ofNat j := Object.integer.inj hij
  have hints := congrArg Int64.toInt hkeys
  rw [Int64.toInt_ofNat_of_lt (by omega), Int64.toInt_ofNat_of_lt (by omega)] at hints
  omega

/-- The elements of an array are what is packed of the table. -/
theorem entries_perm {tbl : Table} (h : isMap tbl = false) (hle : (scan tbl).n ≤ 0xFFFFFFFF) :
  (trim tbl).entries.Perm (((trim tbl).arrayObjects 1 (scan tbl).n).filter fun e => e.2 ≠ .nil)
  := by
  have hkeys := arrayObjects_nodup (trim tbl) hle
  apply (List.perm_ext_iff_of_nodup (.of_map _ (trim tbl).keys_nodup) ((List.Nodup.of_map _ hkeys).filter _)).mpr
  intro e
  rw [List.mem_filter, decide_eq_true_iff]
  constructor
  · intro he
    use ?_, (trim tbl).value_ne_nil e he
    obtain ⟨hmem, hpacked⟩ := List.mem_filter.mp he
    rw [packed, h, Bool.false_or] at hpacked
    obtain ⟨n, hn⟩ : ∃ n, e.1 = .integer n := by
      cases hkey : e.1 with
      | integer n => exact ⟨n, rfl⟩
      | _ =>
          rw [hkey] at hpacked
          cases hpacked
    obtain ⟨hpos, hle'⟩ := index_of_array h hmem hn
    apply List.mem_map.mpr
    use n.toInt.toNat
    constructor
    · rw [List.mem_range'_1]
      omega
    · have hkey : Object.integer (Int64.ofNat n.toInt.toNat) = e.1 := by
        rw [← Int64.ofInt_eq_ofNat, Int.toNat_of_nonneg (Int.le_of_lt hpos), Int64.ofInt_toInt, hn]
      rw [Table.rawgeti, hkey, Seri.lookup_eq_of_mem he]
  · rintro ⟨he, hvalue⟩
    obtain ⟨j, -, rfl⟩ := List.mem_map.mp he
    exact Seri.mem_of_lookup hvalue

/-- A table that is packed as an array though not all of its keys are integers. -/
def Confounded (tbl : Table) : Prop :=
  isMap tbl = false ∧ ∃ e ∈ tbl.entries, isInteger e.1 = false

theorem confounded_iff (tbl : Table) :
  Confounded tbl ↔ ∃ e ∈ tbl.entries, packed tbl e = false
  := by
  unfold Confounded packed
  simp only [Bool.or_eq_false_iff]
  constructor
  · rintro ⟨hmap, e, he, hkey⟩
    exact ⟨e, he, hmap, hkey⟩
  · rintro ⟨e, he, hmap, hkey⟩
    exact ⟨hmap, e, he, hkey⟩

/-! ### Counting entries -/

/-- The entries of all tables inside, so many tables deep. -/
def weight (heap : Heap) : ℕ → Object → ℕ
  | k + 1, .table ref => ((heap ref).entries.map fun e => 1 + (weight heap k e.1 + weight heap k e.2)).sum
  | _, _ => 0

/-- The entries of all tables inside, so many tables deep. -/
def valueWeight : ℕ → Value → ℕ
  | k + 1, .table entries => (entries.map fun w => 1 + (valueWeight k w.1 + valueWeight k w.2)).sum
  | _, _ => 0

variable {heap : Heap} {o : Object} {v : Value}

theorem weight_eq (h : Equals heap o v) (k : ℕ) :
  weight heap k o = valueWeight k v
  := by
  induction k generalizing o v with
  | zero => cases h <;> rfl
  | succ k ih =>
      cases h with
      | table hperm hentries =>
          rw [weight, valueWeight, (hperm.map _).sum_eq]
          clear hperm
          congr 1
          induction hentries with
          | nil => rfl
          | cons hew _ ih' =>
              obtain ⟨hkey, hvalue⟩ := hew
              rw [List.map_cons, List.map_cons, ih hkey, ih hvalue]
              congr 1
      | _ => rfl

/-- The trimmed entries, summed over all. -/
theorem weight_trim (heap : Heap) (k ref : ℕ) :
  weight (trim ∘ heap) (k + 1) (.table ref) = ((heap ref).entries.map fun e =>
    if packed (heap ref) e then 1 + (weight (trim ∘ heap) k e.1 + weight (trim ∘ heap) k e.2) else 0).sum
  := by
  rw [weight]
  change (((heap ref).entries.filter (packed (heap ref))).map _).sum = _
  induction (heap ref).entries with
  | nil => rfl
  | cons e es ih =>
      rw [List.filter_cons, List.map_cons, List.sum_cons]
      split
      · rw [List.map_cons, List.sum_cons, ih]
      · rw [Nat.zero_add, ih]

theorem weight_le (heap : Heap) (k : ℕ) (o : Object) :
  weight (trim ∘ heap) k o ≤ weight heap k o
  := by
  induction k generalizing o with
  | zero => exact Nat.le_refl _
  | succ k ih =>
      cases o with
      | table ref =>
          rw [weight_trim, weight]
          apply List.sum_le_sum
          intro e _
          split
          · exact Nat.add_le_add_left (Nat.add_le_add (ih e.1) (ih e.2)) 1
          · exact Nat.zero_le _
      | _ => exact Nat.le_refl _

/-- The entries that a confounded table inside loses are missing. -/
theorem weight_lt {k ref : ℕ} (h : Inside heap k o (.table ref)) (hconfounded : Confounded (heap ref)) :
  weight (trim ∘ heap) (k + 1) o < weight heap (k + 1) o
  := by
  have hle {k : ℕ} (tbl : Table) (e : Object × Object) :
      (if packed tbl e then 1 + (weight (trim ∘ heap) k e.1 + weight (trim ∘ heap) k e.2) else 0) ≤
        1 + (weight heap k e.1 + weight heap k e.2) := by
    split
    · exact Nat.add_le_add_left (Nat.add_le_add (weight_le heap k e.1) (weight_le heap k e.2)) 1
    · exact Nat.zero_le _
  generalize hw : Object.table ref = w at h
  induction h with
  | here =>
      subst hw
      obtain ⟨e, he, hout⟩ := (confounded_iff _).mp hconfounded
      rw [weight_trim, weight]
      apply List.sum_lt_sum _ _ fun e _ => hle _ e
      use e, he
      rw [hout]
      exact Nat.lt_of_lt_of_le Nat.zero_lt_one (Nat.le_add_right 1 _)
  | @key k ref' e _ he _ ih =>
      rw [weight_trim, weight]
      apply List.sum_lt_sum _ _ fun e _ => hle _ e
      use e, he
      have hlt := ih hw
      have hvalue := weight_le heap (k + 1) e.2
      split <;> omega
  | @value k ref' e _ he _ ih =>
      rw [weight_trim, weight]
      apply List.sum_lt_sum _ _ fun e _ => hle _ e
      use e, he
      have hlt := ih hw
      have hkey := weight_le heap (k + 1) e.1
      split <;> omega

/-! ### When nothing is lost -/

/-- Nothing is trimmed where no table is confounded. -/
theorem equals_of_trim (h : Equals (trim ∘ heap) o v)
    (hno : ∀ k ref, Inside heap k o (.table ref) → ¬ Confounded (heap ref)) :
  Equals heap o v
  := by
  induction hsize : sizeOf v using Nat.strong_induction_on generalizing o v with
  | h size ih =>
      cases h with
      | @table ref es entries hperm hentries =>
          have hkept : (trim (heap ref)).entries = (heap ref).entries := by
            apply List.filter_eq_self.mpr
            intro e he
            by_contra hout
            exact hno 0 ref (.here _) ((confounded_iff _).mpr ⟨e, he, Bool.eq_false_iff.mpr hout⟩)
          rw [Function.comp_apply, hkept] at hperm
          have hsmall : ∀ w ∈ entries, sizeOf w < size := by
            intro w hw
            have hlt := List.sizeOf_lt_of_mem hw
            rw [Value.table.sizeOf_spec] at hsize
            omega
          refine .table hperm ?_
          have hmem : ∀ e ∈ es, e ∈ (heap ref).entries := fun e he => hperm.mem_iff.mpr he
          clear hperm hsize hkept
          induction hentries with
          | nil => exact .nil
          | @cons e w es entries hew _ ih' =>
              obtain ⟨hkey, hvalue⟩ := hew
              have hlt := hsmall w List.mem_cons_self
              have he := hmem e List.mem_cons_self
              have hw : sizeOf w.1 < size ∧ sizeOf w.2 < size := by
                obtain ⟨w₁, w₂⟩ := w
                rw [Prod.mk.sizeOf_spec] at hlt
                dsimp only
                omega
              refine .cons ⟨?_, ?_⟩ (ih' (fun w hw => hsmall w (List.mem_cons_of_mem _ hw))
                fun e he => hmem e (List.mem_cons_of_mem _ he))
              · exact ih _ hw.1 hkey (fun k r hin => hno (k + 1) r (.key he hin)) rfl
              · exact ih _ hw.2 hvalue (fun k r hin => hno (k + 1) r (.value he hin)) rfl
      | nil => exact .nil
      | boolean b => exact .boolean b
      | integer n => exact .integer n
      | number bits => exact .number bits
      | lightuserdata p => exact .lightuserdata p
      | string s => exact .string s

/-- A value that equals what is left of an object equals the object if and only if no table inside is confounded. -/
theorem equals_iff (h : Equals (trim ∘ heap) o v) :
  Equals heap o v ↔ ∀ k ref, Inside heap k o (.table ref) → ¬ Confounded (heap ref)
  := by
  constructor
  · intro hequals k ref hin hconfounded
    have hlt := weight_lt hin hconfounded
    rw [weight_eq h, weight_eq hequals] at hlt
    exact Nat.lt_irrefl _ hlt
  · exact equals_of_trim h

end MessagePack
