import FWServer.Kernel.Machine
import FWServer.Kernel.Rotation
import FWServer.Skynet.HashId
import Mathlib.Data.List.AList
import Mathlib.Data.List.Perm.Subperm

/-!
# Slots of ids

What the table of ids is for: `Represents hi present` says that `hi` holds the ids of `present`, each in its slot.
`lookup_eq`, `remove_eq` and `insert_cases` are the operations on it; insertion goes wrong exactly when a probe that
does not fit is reached before a free slot.
-/

namespace Skynet

namespace Hashid

variable {hi hi' : Hashid} {id : ℤ} {c s t : ℕ}

/-! ### Well-formed tables -/

/-- The taken slots are in the chains of the buckets of their ids, the others are in none. -/
def Chained (hi : Hashid) (lists : ℕ → List ℕ) : Prop :=
  LinkedLists hi.next hi.root lists ∧ ∀ h s, s ∈ lists h ↔ hi.idOf s ≠ -1 ∧ (hi.bucket (hi.idOf s)).toNat = h

/-- The arrays have their lengths, and the slots of different chains and no chain are kept apart. -/
structure WellFormed (hi : Hashid) : Prop where
  cap_lt : hi.cap < 2 ^ 31
  length_id : (hi.id.length : ℤ) = hi.cap
  hashmod_nonneg : 0 ≤ hi.hashmod
  hashmod_lt : hi.hashmod < 2 ^ 31
  length_hash : (hi.hash.length : ℤ) = hi.hashmod + 1
  free : ∀ s, hi.idOf s = -1 → hi.next s = none
  chained : ∃ lists, hi.Chained lists

/-- The table holds the ids of `present` in their slots. -/
structure Represents (hi : Hashid) (present : AList fun _ : ℤ => ℕ) : Prop where
  wellFormed : hi.WellFormed
  slot : ∀ id s, present.lookup id = some s ↔ id ≠ -1 ∧ hi.idOf s = id
  count : hi.count = present.keys.length

theorem Represents.id_inj {present : AList fun _ : ℤ => ℕ} (h : hi.Represents present) (hs : hi.idOf s ≠ -1)
    (hst : hi.idOf s = hi.idOf t) :
  s = t
  := by
  have hslot := (h.slot (hi.idOf s) s).mpr ⟨hs, rfl⟩
  rw [(h.slot (hi.idOf s) t).mpr ⟨hs, hst.symm⟩] at hslot
  exact (Option.some.inj hslot).symm

theorem WellFormed.bucket_mem (h : hi.WellFormed) (id : ℤ) :
  0 ≤ hi.bucket id ∧ hi.bucket id < hi.hash.length
  := by
  have hmem := Hashid.bucket_mem h.hashmod_nonneg h.hashmod_lt id
  have hlength := h.length_hash
  omega

theorem WellFormed.access_bucket (h : hi.WellFormed) (id : ℤ) :
  access hi.hash (hi.bucket id) = some (hi.root (hi.bucket id).toNat)
  := access_hash (h.bucket_mem id).1 (h.bucket_mem id).2

variable {lists : ℕ → List ℕ} {h : ℕ}

theorem Chained.lt (hc : hi.Chained lists) (hs : s ∈ lists h) :
  s < hi.id.length
  := lt_of_idOf ((hc.2 h s).mp hs).1

/-- There are not more slots in a chain than in the table. -/
theorem Chained.length_le (hc : hi.Chained lists) (h : ℕ) :
  (lists h).length ≤ hi.id.length
  := by
  have hsub : lists h ⊆ List.range hi.id.length := fun s hs => List.mem_range.mpr (hc.lt hs)
  have hle := ((hc.1.linked h).nodup.subperm hsub).length_le
  rwa [List.length_range] at hle

variable {present : AList fun _ : ℤ => ℕ}

/-- The slot of an id is in the chain of its bucket. -/
theorem Represents.mem_lists (hr : hi.Represents present) (hc : hi.Chained lists) :
  s ∈ lists (hi.bucket id).toNat ∧ hi.idOf s = id ↔ present.lookup id = some s
  := by
  rw [hr.slot, hc.2]
  constructor
  · rintro ⟨⟨hs, -⟩, rfl⟩
    exact ⟨hs, rfl⟩
  · rintro ⟨hs, rfl⟩
    exact ⟨⟨hs, rfl⟩, rfl⟩

/-! ### Slots -/

/-- A slot that is given back holds no id any more. -/
theorem slot_erase {idOf : ℕ → ℤ} (hslot : ∀ id s, present.lookup id = some s ↔ id ≠ -1 ∧ idOf s = id)
    (ht : present.lookup id = some t) (id' : ℤ) (s : ℕ) :
  (present.erase id).lookup id' = some s ↔ id' ≠ -1 ∧ Function.update idOf t (-1) s = id'
  := by
  obtain ⟨hid, hidt⟩ := (hslot id t).mp ht
  rcases eq_or_ne id' id with rfl | hne
  · rw [AList.lookup_erase]
    apply iff_of_false
    · rintro ⟨⟩
    · rintro ⟨-, hs⟩
      rcases eq_or_ne s t with rfl | hst
      · rw [Function.update_self] at hs
        apply hid hs.symm
      · rw [Function.update_of_ne hst] at hs
        have hlookup := (hslot id' s).mpr ⟨hid, hs⟩
        rw [ht] at hlookup
        apply hst (Option.some.inj hlookup).symm
  · rw [AList.lookup_erase_ne hne, hslot]
    rcases eq_or_ne s t with rfl | hst
    · rw [Function.update_self, hidt]
      apply iff_of_false
      · exact fun hs => hne hs.2.symm
      · exact fun hs => hs.1 hs.2.symm
    · rw [Function.update_of_ne hst]

/-- A free slot that is given to a new id holds it. -/
theorem slot_insert {idOf : ℕ → ℤ} (hslot : ∀ id s, present.lookup id = some s ↔ id ≠ -1 ∧ idOf s = id)
    (hid : id ≠ -1) (hnew : id ∉ present) (hfree : idOf s = -1) (id' : ℤ) (t : ℕ) :
  (present.insert id s).lookup id' = some t ↔ id' ≠ -1 ∧ Function.update idOf s id t = id'
  := by
  have hlookup : present.lookup id = none := AList.lookup_eq_none.mpr hnew
  rcases eq_or_ne id' id with rfl | hne
  · rw [AList.lookup_insert, Option.some_inj]
    rcases eq_or_ne t s with rfl | hts
    · rw [Function.update_self]
      apply iff_of_true rfl ⟨hid, rfl⟩
    · rw [Function.update_of_ne hts, ← hslot, hlookup]
      apply iff_of_false hts.symm
      rintro ⟨⟩
  · rw [AList.lookup_insert_ne hne, hslot]
    rcases eq_or_ne t s with rfl | hts
    · rw [Function.update_self, hfree]
      apply iff_of_false
      · exact fun h => h.1 h.2.symm
      · exact fun h => hne h.2.symm
    · rw [Function.update_of_ne hts]

/-! ### Looking up -/

/-- An id is found in its slot. -/
theorem Represents.lookup_eq (hr : hi.Represents present) (id : ℤ) :
  hi.lookup id = some (((present.lookup id).map Nat.cast).getD (-1))
  := by
  obtain ⟨lists, hc⟩ := hr.wellFormed.chained
  have hwalk := lookupLoop_eq id (hc.1.linked (hi.bucket id).toNat) (fun s hs => hc.lt hs) (hc.length_le _)
  rw [lookup, hr.wellFormed.access_bucket, Option.bind_eq_bind, Option.bind_some, hwalk]
  congr 3
  cases hfind : (lists (hi.bucket id).toNat).find? fun s => hi.idOf s = id with
  | some s =>
      symm
      rw [← hr.mem_lists hc]
      have hid := List.find?_some hfind
      use List.mem_of_find?_eq_some hfind
      exact of_decide_eq_true hid
  | none =>
      symm
      rw [Option.eq_none_iff_forall_ne_some]
      intro s hs
      obtain ⟨hmem, hid⟩ := (hr.mem_lists hc).mpr hs
      apply List.find?_eq_none.mp hfind s hmem
      apply decide_eq_true hid

/-! ### Removing -/

/-- `hi'` is `hi` with the slot `t` taken out of its chain. -/
structure Unlinks (hi hi' : Hashid) (lists : ℕ → List ℕ) (t : ℕ) : Prop where
  idOf : hi'.idOf = hi.idOf
  hashmod : hi'.hashmod = hi.hashmod
  cap : hi'.cap = hi.cap
  count : hi'.count = hi.count
  length_id : hi'.id.length = hi.id.length
  length_hash : hi'.hash.length = hi.hash.length
  free : ∀ s, hi.idOf s = -1 → hi'.next s = hi.next s
  linked : ∃ lists', LinkedLists hi'.next hi'.root lists' ∧ ∀ h s, s ∈ lists' h ↔ s ∈ lists h ∧ s ≠ t

theorem Unlinks.clear_idOf (hu : Unlinks hi hi' lists t) (ht : t < hi.id.length) :
  (hi'.clear t).1.idOf = Function.update hi.idOf t (-1)
  := by
  rw [← hu.idOf]
  apply setNode_idOf
  rwa [hu.length_id]

theorem Unlinks.clear_next (hu : Unlinks hi hi' lists t) (ht : t < hi.id.length) :
  (hi'.clear t).1.next = Function.update hi'.next t none
  := by
  apply setNode_next
  rwa [hu.length_id]

/-- The chains without a slot that is given back. -/
theorem Unlinks.clear_chained (hu : Unlinks hi hi' lists t) (hc : hi.Chained lists) (ht : t < hi.id.length) :
  ∃ lists', (hi'.clear t).1.Chained lists'
  := by
  obtain ⟨lists', hl, hmem⟩ := hu.linked
  have hbucket : ∀ id, (hi'.clear t).1.bucket id = hi.bucket id := by
    intro id
    rw [bucket, bucket, ← hu.hashmod]
    rfl
  use lists'
  constructor
  · rw [hu.clear_next ht]
    apply hl.update
    intro h ht'
    apply ((hmem h t).mp ht').2 rfl
  · intro h s
    rw [hmem, hc.2, hu.clear_idOf ht]
    rcases eq_or_ne s t with rfl | hst
    · rw [Function.update_self]
      apply iff_of_false
      · exact fun hs => hs.2 rfl
      · exact fun hs => hs.1 rfl
    · rw [Function.update_of_ne hst, hbucket]
      apply and_iff_left hst

theorem Unlinks.clear_wellFormed (hu : Unlinks hi hi' lists t) (hw : hi.WellFormed) (hc : hi.Chained lists)
    (ht : t < hi.id.length) :
  (hi'.clear t).1.WellFormed
  where
  cap_lt := by
    change hi'.cap < _
    rw [hu.cap]
    apply hw.cap_lt
  length_id := by
    change ((hi'.setNode t _).id.length : ℤ) = hi'.cap
    rw [length_setNode, hu.length_id, hu.cap]
    apply hw.length_id
  hashmod_nonneg := by
    change 0 ≤ hi'.hashmod
    rw [hu.hashmod]
    apply hw.hashmod_nonneg
  hashmod_lt := by
    change hi'.hashmod < _
    rw [hu.hashmod]
    apply hw.hashmod_lt
  length_hash := by
    change (hi'.hash.length : ℤ) = hi'.hashmod + 1
    rw [hu.length_hash, hu.hashmod]
    apply hw.length_hash
  free s hs := by
    rw [hu.clear_idOf ht] at hs
    rw [hu.clear_next ht]
    rcases eq_or_ne s t with rfl | hst
    · apply Function.update_self
    · rw [Function.update_of_ne hst] at hs
      rw [Function.update_of_ne hst, hu.free s hs]
      apply hw.free s hs
  chained := hu.clear_chained hc ht

/-- A slot that has been taken out of its chain may be given back. -/
theorem Unlinks.represents (hu : Unlinks hi hi' lists t) (hr : hi.Represents present) (hc : hi.Chained lists)
    (hlookup : present.lookup id = some t) :
  (hi'.clear t).1.Represents (present.erase id)
  := by
  obtain ⟨hid, hidt⟩ := (hr.slot id t).mp hlookup
  have ht : t < hi.id.length := by
    apply lt_of_idOf
    rwa [hidt]
  constructor
  · apply hu.clear_wellFormed hr.wellFormed hc ht
  · rw [hu.clear_idOf ht]
    apply slot_erase hr.slot hlookup
  · have hkey : id ∈ present.keys := by
      rw [← AList.mem_keys, ← AList.lookup_isSome, hlookup]
      rfl
    have hpos := List.length_pos_of_mem hkey
    change hi'.count - 1 = _
    rw [hu.count, hr.count, AList.keys_erase, List.length_erase_of_mem hkey]
    omega

/-- The first slot of a chain is taken out. -/
theorem Unlinks.head {l : List ℕ} (hw : hi.WellFormed) (hc : hi.Chained lists)
    (hl : lists (hi.bucket id).toNat = t :: l) :
  Unlinks hi (hi.setHead (hi.bucket id) (hi.next t)) lists t
  where
  idOf := rfl
  hashmod := rfl
  cap := rfl
  count := rfl
  length_id := rfl
  length_hash := length_setHead _ _
  free _ _ := rfl
  linked := by
    obtain ⟨hnonneg, hlt⟩ := hw.bucket_mem id
    use Function.update lists (hi.bucket id).toNat l
    constructor
    · rw [setHead_next, setHead_root _ hnonneg hlt]
      apply hc.1.tail hl
    · intro h s
      have hnotMem := hc.1.notMem_tail hl h
      rcases eq_or_ne h (hi.bucket id).toNat with rfl | hne
      · rw [Function.update_self] at hnotMem ⊢
        rw [hl, List.mem_cons]
        constructor
        · intro hs
          use .inr hs
          rintro rfl
          apply hnotMem hs
        · rintro ⟨rfl | hs, hst⟩
          · exact absurd rfl hst
          · apply hs
      · rw [Function.update_of_ne hne] at hnotMem ⊢
        constructor
        · intro hs
          use hs
          rintro rfl
          apply hnotMem hs
        · exact And.left

/-- The slot after another is taken out of a chain. -/
theorem Unlinks.after {b : ℕ} {l₁ l₂ : List ℕ} (hc : hi.Chained lists) (hl : lists h = l₁ ++ b :: t :: l₂) :
  Unlinks hi (hi.setNode b ⟨hi.idOf b, hi.next t⟩) lists t
  := by
  have hb : b ∈ lists h := by
    rw [hl]
    apply List.mem_append_right l₁ List.mem_cons_self
  have ht : t ∈ lists h := by
    rw [hl]
    apply List.mem_append_right l₁ (List.mem_cons_of_mem b List.mem_cons_self)
  have hnodup := (hc.1.linked h).nodup
  rw [hl, List.append_cons, List.nodup_middle, List.nodup_cons, List.append_assoc, List.singleton_append] at hnodup
  have hlt := hc.lt hb
  constructor
  · rw [setNode_idOf hlt, Function.update_eq_self]
  · rfl
  · rfl
  · rfl
  · apply length_setNode
  · rfl
  · intro s hs
    rw [setNode_next hlt]
    apply Function.update_of_ne
    rintro rfl
    apply ((hc.2 h s).mp hb).1 hs
  · use Function.update lists h (l₁ ++ b :: l₂)
    constructor
    · rw [setNode_next hlt]
      apply hc.1.unlink hl
    · intro h' s
      rcases eq_or_ne h' h with rfl | hne
      · rw [Function.update_self, hl]
        constructor
        · intro hs
          constructor
          · rw [List.append_cons, List.mem_append, List.mem_cons]
            rw [List.append_cons, List.mem_append] at hs
            exact hs.imp_right .inr
          · rintro rfl
            apply hnodup.1 hs
        · rintro ⟨hs, hst⟩
          rw [List.append_cons, List.mem_append, List.mem_cons] at hs
          rw [List.append_cons, List.mem_append]
          exact hs.imp_right fun hs => hs.resolve_left hst
      · rw [Function.update_of_ne hne]
        constructor
        · intro hs
          use hs
          rintro rfl
          apply hne (hc.1.disjoint hs ht)
        · exact And.left

/-- Removing an id that is not there does nothing. -/
theorem Represents.remove_of_absent (hr : hi.Represents present) (hlookup : present.lookup id = none) :
  hi.remove id = some (hi, -1)
  := by
  obtain ⟨lists, hc⟩ := hr.wellFormed.chained
  have hlinked := hc.1.linked (hi.bucket id).toNat
  have hlength := hc.length_le (hi.bucket id).toNat
  have hlt : ∀ s ∈ lists (hi.bucket id).toNat, s < hi.id.length := fun s hs => hc.lt hs
  have haccess := hr.wellFormed.access_bucket id
  have habsent : ∀ s ∈ lists (hi.bucket id).toNat, hi.idOf s ≠ id := by
    intro s hs hid
    have hslot := (hr.mem_lists hc).mp ⟨hs, hid⟩
    rw [hlookup] at hslot
    cases hslot
  cases hl : lists (hi.bucket id).toNat with
  | nil =>
      rw [hl] at hlinked
      rw [Linked.nil_iff.mp hlinked] at haccess
      apply remove_of_empty haccess
  | cons c l =>
      rw [hl] at hlinked hlength habsent hlt
      have hroot := hlinked.1
      rw [hroot] at hlinked haccess
      rw [remove_of_head haccess (hlt c List.mem_cons_self), if_neg (habsent c List.mem_cons_self)]
      apply removeLoop_of_forall_ne hlinked hlt hlength
      exact fun s hs => habsent s (List.mem_cons_of_mem c hs)

/-- Removing an id that is there takes its slot out of its chain and gives it back. -/
theorem Represents.remove_of_present (hr : hi.Represents present) (hc : hi.Chained lists)
    (hlookup : present.lookup id = some t) :
  ∃ hi' : Hashid, hi.remove id = some (hi'.clear t) ∧ Unlinks hi hi' lists t
  := by
  obtain ⟨hmem, hid⟩ := (hr.mem_lists hc).mpr hlookup
  have hlinked := hc.1.linked (hi.bucket id).toNat
  have hlength := hc.length_le (hi.bucket id).toNat
  have hlt : ∀ s ∈ lists (hi.bucket id).toNat, s < hi.id.length := fun s hs => hc.lt hs
  have haccess := hr.wellFormed.access_bucket id
  obtain ⟨l₁, l₂, hl⟩ := List.append_of_mem hmem
  have hne : ∀ s ∈ l₁, hi.idOf s ≠ id := by
    intro s hs hsid
    have hnodup := hlinked.nodup
    rw [hl, List.nodup_append] at hnodup
    apply hnodup.2.2 s hs t List.mem_cons_self
    apply hr.id_inj
    · rw [hsid]
      apply ((hr.slot id t).mp hlookup).1
    · rw [hsid, hid]
  rw [hl] at hlinked hlength hlt
  rcases List.eq_nil_or_concat l₁ with rfl | ⟨l, b, hconcat⟩
  · refine ⟨hi.setHead (hi.bucket id) (hi.next t), ?_, Unlinks.head hr.wellFormed hc hl⟩
    rw [hlinked.1] at haccess
    rw [remove_of_head haccess (hlt t List.mem_cons_self), if_pos hid]
  · rw [List.concat_eq_append] at hconcat
    subst hconcat
    rw [List.append_assoc, List.singleton_append] at hl hlinked hlt hlength
    refine ⟨hi.setNode b ⟨hi.idOf b, hi.next t⟩, ?_, Unlinks.after hc hl⟩
    obtain ⟨c, hroot, hcmem, hclt⟩ : ∃ c, hi.root (hi.bucket id).toNat = some c ∧ c ∈ l ++ [b] ∧
        c ∈ l ++ b :: t :: l₂ := by
      cases l with
      | nil => exact ⟨b, hlinked.1, List.mem_cons_self, List.mem_cons_self⟩
      | cons c l => exact ⟨c, hlinked.1, List.mem_cons_self, List.mem_cons_self⟩
    rw [hroot] at haccess hlinked
    rw [remove_of_head haccess (hlt c hclt), if_neg (hne c hcmem)]
    apply removeLoop_of_eq hlinked hlt _ hne hid
    rw [List.length_append, List.length_cons] at hlength
    omega

/-- A removed id is looked up in vain from then on, and nothing else changes. -/
theorem Represents.remove_eq (hr : hi.Represents present) (id : ℤ) :
  ∃ hi' : Hashid, hi.remove id = some (hi', ((present.lookup id).map Nat.cast).getD (-1)) ∧
    hi'.Represents (present.erase id) ∧ hi'.cap = hi.cap
  := by
  cases hlookup : present.lookup id with
  | none =>
      have herase : present.erase id = present := by
        apply AList.ext
        apply List.kerase_of_notMem_keys
        rwa [AList.lookup_eq_none] at hlookup
      rw [herase]
      use hi, hr.remove_of_absent hlookup, hr
  | some t =>
      obtain ⟨lists, hc⟩ := hr.wellFormed.chained
      obtain ⟨hi', hremove, hu⟩ := hr.remove_of_present hc hlookup
      use (hi'.clear t).1, hremove, hu.represents hr hc hlookup, hu.cap

/-! ### Inserting -/

/-- A slot is given to an id, in front of the others of its bucket. -/
def place (hi : Hashid) (id : ℤ) (s : ℕ) : Hashid :=
  { (hi.setNode s ⟨id, hi.root (hi.bucket id).toNat⟩).setHead (hi.bucket id) (some s) with count := hi.count + 1 }

theorem place_idOf (hs : s < hi.id.length) (id : ℤ) :
  (hi.place id s).idOf = Function.update hi.idOf s id
  := setNode_idOf hs _

theorem place_next (hs : s < hi.id.length) (id : ℤ) :
  (hi.place id s).next = Function.update hi.next s (hi.root (hi.bucket id).toNat)
  := setNode_next hs _

theorem WellFormed.place_root (hw : hi.WellFormed) (id : ℤ) (s : ℕ) :
  (hi.place id s).root = Function.update hi.root (hi.bucket id).toNat (some s)
  := by
  obtain ⟨hnonneg, hlt⟩ := hw.bucket_mem id
  apply (hi.setNode s ⟨id, hi.root (hi.bucket id).toNat⟩).setHead_root hnonneg hlt

/-- The chains with a slot that is given to an id. -/
theorem WellFormed.place_chained (hw : hi.WellFormed) (hid : id ≠ -1) (hs : s < hi.id.length) (hfree : hi.idOf s = -1) :
  ∃ lists, (hi.place id s).Chained lists
  := by
  obtain ⟨lists, hc⟩ := hw.chained
  have hnot : ∀ h, s ∉ lists h := fun h hmem => ((hc.2 h s).mp hmem).1 hfree
  have hbucket : (hi.place id s).bucket = hi.bucket := rfl
  use Function.update lists (hi.bucket id).toNat (s :: lists (hi.bucket id).toNat)
  constructor
  · rw [place_next hs, hw.place_root]
    apply hc.1.push hnot
  · intro h t
    rw [place_idOf hs, hbucket]
    rcases eq_or_ne t s with rfl | hts
    · rw [Function.update_self]
      rcases eq_or_ne h (hi.bucket id).toNat with rfl | hh
      · rw [Function.update_self]
        apply iff_of_true List.mem_cons_self ⟨hid, rfl⟩
      · rw [Function.update_of_ne hh]
        apply iff_of_false (hnot h)
        rintro ⟨-, rfl⟩
        apply hh rfl
    · rw [Function.update_of_ne hts, ← hc.2]
      rcases eq_or_ne h (hi.bucket id).toNat with rfl | hh
      · rw [Function.update_self, List.mem_cons]
        apply or_iff_right hts
      · rw [Function.update_of_ne hh]

theorem WellFormed.place (hw : hi.WellFormed) (hid : id ≠ -1) (hs : s < hi.id.length) (hfree : hi.idOf s = -1) :
  (hi.place id s).WellFormed
  where
  cap_lt := hw.cap_lt
  length_id := by
    change ((hi.setNode s _).id.length : ℤ) = hi.cap
    rw [length_setNode]
    apply hw.length_id
  hashmod_nonneg := hw.hashmod_nonneg
  hashmod_lt := hw.hashmod_lt
  length_hash := by
    change (((hi.setNode s _).setHead (hi.bucket id) _).hash.length : ℤ) = hi.hashmod + 1
    rw [length_setHead]
    apply hw.length_hash
  free t ht := by
    rw [place_idOf hs] at ht
    rw [place_next hs]
    rcases eq_or_ne t s with rfl | hts
    · rw [Function.update_self] at ht
      exact absurd ht hid
    · rw [Function.update_of_ne hts] at ht
      rw [Function.update_of_ne hts]
      apply hw.free t ht
  chained := hw.place_chained hid hs hfree

/-- A free slot may be given to an id. -/
theorem Represents.put_eq (hr : hi.Represents present) (hid : id ≠ -1) (hnew : id ∉ present) (hs : s < hi.id.length)
    (hfree : hi.idOf s = -1) :
  ∃ hi' : Hashid, hi.put id s = some (hi', s) ∧ hi'.Represents (present.insert id s) ∧ hi'.cap = hi.cap
  := by
  have hput : hi.put id s = some (hi.place id s, s) :=
    put_of_free hs (hr.wellFormed.free s hfree) (hr.wellFormed.access_bucket id)
  refine ⟨hi.place id s, hput, ?_, rfl⟩
  constructor
  · apply hr.wellFormed.place hid hs hfree
  · rw [place_idOf hs]
    apply slot_insert hr.slot hid hnew hfree
  · change hi.count + 1 = _
    rw [AList.keys_insert, List.erase_of_not_mem hnew, List.length_cons, hr.count, Int.natCast_add, Int.natCast_one]

/-- A table without a free slot is full. -/
theorem Represents.full_of_taken (hr : hi.Represents present) (htaken : ∀ s < hi.cap.toNat, hi.idOf s ≠ -1) :
  hi.full = true
  := by
  have hlength := hr.wellFormed.length_id
  have hnodup : ((List.range hi.cap.toNat).map hi.idOf).Nodup := by
    apply List.nodup_range.map_on
    intro s hs t _ hst
    apply hr.id_inj (htaken s (List.mem_range.mp hs)) hst
  have hperm : present.keys.Perm ((List.range hi.cap.toNat).map hi.idOf) := by
    rw [List.perm_ext_iff_of_nodup present.keys_nodup hnodup]
    intro id
    rw [← AList.mem_keys, ← AList.lookup_isSome, Option.isSome_iff_exists, List.mem_map]
    constructor
    · rintro ⟨s, hs⟩
      obtain ⟨hid, hs⟩ := (hr.slot id s).mp hs
      have hlt : s < hi.id.length := by
        apply lt_of_idOf
        rwa [hs]
      use s, List.mem_range.mpr (by omega), hs
    · rintro ⟨s, hs, rfl⟩
      use s
      apply (hr.slot _ s).mpr ⟨htaken s (List.mem_range.mp hs), rfl⟩
  have hcount := hperm.length_eq
  rw [List.length_map, List.length_range] at hcount
  rw [full, hr.count, hcount, beq_iff_eq]
  omega

/-- A new id is put in the first free slot from its remainder on, unless a probe that does not fit comes before. -/
theorem Represents.insert_cases (hr : hi.Represents present) (h0 : 0 ≤ id) (hid : id < 2 ^ 31) (hnew : id ∉ present)
    (hfull : hi.full = false) :
  (∃ (hi' : Hashid) (s : ℕ), hi.insert id = some (hi', s) ∧ hi'.Represents (present.insert id s) ∧ hi'.cap = hi.cap ∧
      ∀ i : ℕ, i < hi.cap → hi.Taken id i → hi.Fits id i) ∨
    hi.insert id = none ∧ ∃ i : ℕ, i < hi.cap ∧ hi.Taken id i ∧ ¬ hi.Fits id i
  := by
  have hw := hr.wellFormed
  rcases probe_cases hw.length_id hw.cap_lt h0 hid (Nat.zero_add hi.cap.toNat)
      (fun j hj => absurd hj (Nat.not_lt_zero j))
      (fun j hj => absurd hj (Nat.not_lt_zero j)) with
    ⟨i, hi', htaken, hfits, hprobe⟩ | ⟨i, hi', htaken, hfits, hfree, hprobe⟩ | htaken
  · right
    use ?_, i, hi', htaken, hfits
    have hprobe : hi.probe id hi.cap.toNat 0 = none := hprobe
    rw [insert, hprobe]
    rfl
  · left
    have hresidue : hi.residue id i < hi.cap.toNat := residue_lt (by omega) id i
    have hlength := hw.length_id
    obtain ⟨hi'', hput, hr', hcap⟩ := hr.put_eq (by omega) hnew (s := hi.residue id i) (by omega) hfree
    use hi'', hi.residue id i
    refine ⟨?_, hr', hcap, ?_⟩
    · have hprobe : hi.probe id hi.cap.toNat 0 = some (some (hi.residue id i)) := hprobe
      rw [insert, hprobe]
      apply hput
    · intro j hj htaken'
      apply hfits
      by_contra hlt
      apply htaken' i (Nat.lt_of_not_le hlt) hfree
  · -- all slots are among those probed
    have hall : hi.full = true := by
      apply hr.full_of_taken
      intro s hs
      obtain ⟨i, hi', rfl⟩ := Rotation.exists_mod_eq id.toNat hs
      apply htaken i hi'
    rw [hfull] at hall
    cases hall

/-- A table that has just been initialised, with so many buckets. -/
def blank (max : ℕ) (hashcap : ℤ) : Hashid where
  hashmod := hashcap - 1
  cap := max
  count := 0
  id := List.replicate max ⟨-1, none⟩
  hash := List.replicate hashcap.toNat none

theorem blank_idOf (max : ℕ) (hashcap : ℤ) (s : ℕ) :
  (blank max hashcap).idOf s = -1
  := by
  change ((List.replicate max _)[s]?.map HashidNode.id).getD (-1) = -1
  rw [List.getElem?_replicate]
  split <;> rfl

theorem blank_next (max : ℕ) (hashcap : ℤ) (s : ℕ) :
  (blank max hashcap).next s = none
  := by
  change (List.replicate max _)[s]?.bind HashidNode.next = none
  rw [List.getElem?_replicate]
  split <;> rfl

theorem blank_root (max : ℕ) (hashcap : ℤ) (h : ℕ) :
  (blank max hashcap).root h = none
  := by
  change (List.replicate hashcap.toNat none)[h]?.join = none
  rw [List.getElem?_replicate]
  split <;> rfl

/-- A table starts without ids, unless it is to hold more than 2^30. -/
theorem init_represents {max : ℕ} (hmax : max ≤ 2 ^ 30) :
  ∃ hi : Hashid, init max = some hi ∧ hi.Represents ∅ ∧ hi.cap = max
  := by
  obtain ⟨hashcap, hloop, hlower, hupper⟩ :=
    hashcapLoop_of_le max (by omega) (Nat.le_refl 4) (show 4 + 26 = 30 from rfl)
  have hloop : hashcapLoop max 27 16 = some hashcap := hloop
  use blank max hashcap
  refine ⟨?_, ?_, rfl⟩
  · rw [init, hloop]
    rfl
  · constructor
    · constructor
      · change (max : ℤ) < 2 ^ 31
        omega
      · change ((List.replicate max _).length : ℤ) = max
        rw [List.length_replicate]
      · change 0 ≤ hashcap - 1
        omega
      · change hashcap - 1 < 2 ^ 31
        omega
      · change ((List.replicate hashcap.toNat _).length : ℤ) = hashcap - 1 + 1
        rw [List.length_replicate]
        omega
      · exact fun s _ => blank_next max hashcap s
      · use fun _ => []
        constructor
        · constructor
          · exact blank_root max hashcap
          · rintro h h' s ⟨⟩
        · intro h s
          apply iff_of_false List.not_mem_nil
          exact fun hs => hs.1 (blank_idOf max hashcap s)
    · intro id s
      rw [AList.lookup_empty]
      apply iff_of_false
      · rintro ⟨⟩
      · rintro ⟨hid, hs⟩
        apply hid
        rw [← hs, blank_idOf]
    · rfl

/-! ### Runs -/

/-- A call of one of the operations. -/
inductive Call where
  | insert (id : ℤ)
  | remove (id : ℤ)
  | lookup (id : ℤ)

/-- The table, which is lost when a call goes wrong or does not end, and the slots that have been returned for the ids
that are present. -/
structure World where
  table : Option Hashid
  present : AList fun _ : ℤ => ℕ

/-- What a call does.  Only ids in 0..2^31-1 that are not present are inserted, and none when the table is full. -/
def World.step (w : World) (call : Call) : Option World :=
  w.table.bind fun hi =>
    match call with
    | .insert id =>
        if 0 ≤ id ∧ id < 2 ^ 31 ∧ id ∉ w.present ∧ hi.full = false then
          match hi.insert id with
          | none => some { w with table := none }
          | some (hi', slot) => some ⟨some hi', w.present.insert id slot⟩
        else none
    | .remove id =>
        match hi.remove id with
        | none => some { w with table := none }
        | some (hi', _) => some ⟨some hi', w.present.erase id⟩
    | .lookup id =>
        match hi.lookup id with
        | none => some { w with table := none }
        | some _ => some w

/-- A table after `hashid_init`. -/
def World.initial (max : ℕ) : World where
  table := init max
  present := ∅

/-- The runs of a table for any number of ids. -/
def machine : Machine World Call where
  init w := ∃ max < 2 ^ 31, w = .initial max
  step := World.step

/-- The table maps the ids that are present to their slots, different ones of the first `cap`. -/
structure SlotMap (cap : ℕ) (w : World) (hi : Hashid) : Prop where
  table : w.table = some hi
  lookup : ∀ id, hi.lookup id = some (((w.present.lookup id).map Nat.cast).getD (-1))
  slot_lt : ∀ id s, w.present.lookup id = some s → s < cap
  slot_inj : ∀ id id' s, w.present.lookup id = some s → w.present.lookup id' = some s → id = id'
  count : hi.count = w.present.keys.length

/-- The probes of an insertion that come before a free slot fit. -/
def ProbesFit (w : World) : Call → Prop
  | .insert id => ∀ hi, w.table = some hi → ∀ i : ℕ, i < hi.cap → hi.Taken id i → hi.Fits id i
  | _ => True

/-- The invariant of the runs. -/
def Sound (cap : ℕ) (w : World) : Prop :=
  ∃ hi, w.table = some hi ∧ hi.Represents w.present ∧ hi.cap = cap

theorem Sound.slotMap {cap : ℕ} {w : World} (h : Sound cap w) :
  ∃ hi, SlotMap cap w hi
  := by
  obtain ⟨hi, htable, hr, hcap⟩ := h
  use hi
  constructor
  · apply htable
  · apply hr.lookup_eq
  · intro id s hs
    obtain ⟨hid, hs⟩ := (hr.slot id s).mp hs
    have hlt : s < hi.id.length := by
      apply lt_of_idOf
      rwa [hs]
    have hlength := hr.wellFormed.length_id
    omega
  · intro id id' s hs hs'
    rw [← ((hr.slot id s).mp hs).2, ((hr.slot id' s).mp hs').2]
  · apply hr.count

/-- A call keeps the invariant when the probes of an insertion fit, and else goes wrong. -/
theorem Sound.step {cap : ℕ} {w w' : World} {call : Call} (h : Sound cap w) (hstep : w.step call = some w') :
  Sound cap w' ∧ ProbesFit w call ∨ w'.table = none ∧ ¬ ProbesFit w call
  := by
  obtain ⟨hi, htable, hr, hcap⟩ := h
  rw [World.step, htable, Option.bind_some] at hstep
  cases call with
  | insert id =>
      dsimp only at hstep
      split at hstep
      · next hadmit =>
          obtain ⟨h0, hid, hnew, hfull⟩ := hadmit
          rcases hr.insert_cases h0 hid hnew hfull with
            ⟨hi', s, hinsert, hr', hcap', hfits⟩ | ⟨hinsert, i, hlt, htaken, hfits⟩
          · rw [hinsert] at hstep
            obtain rfl := Option.some.inj hstep
            left
            use ⟨hi', rfl, hr', hcap'.trans hcap⟩
            intro hi'' htable'
            rw [htable] at htable'
            obtain rfl := Option.some.inj htable'
            apply hfits
          · rw [hinsert] at hstep
            obtain rfl := Option.some.inj hstep
            right
            use rfl
            intro hok
            apply hfits (hok hi htable i hlt htaken)
      · cases hstep
  | remove id =>
      obtain ⟨hi', hremove, hr', hcap'⟩ := hr.remove_eq id
      dsimp only at hstep
      rw [hremove] at hstep
      obtain rfl := Option.some.inj hstep
      left
      exact ⟨⟨hi', rfl, hr', hcap'.trans hcap⟩, trivial⟩
  | lookup id =>
      dsimp only at hstep
      rw [hr.lookup_eq id] at hstep
      obtain rfl := Option.some.inj hstep
      left
      exact ⟨⟨hi, htable, hr, hcap⟩, trivial⟩

theorem not_sound_of_table {cap : ℕ} {w : World} (h : w.table = none) :
  ¬ Sound cap w
  := by
  rintro ⟨hi, htable, -⟩
  rw [h] at htable
  cases htable

/-- A call keeps the invariant exactly when the probes of an insertion fit. -/
theorem sound_step_iff {cap : ℕ} {w w' : World} {call : Call} (h : Sound cap w)
    (hstep : machine.step w call = some w') :
  Sound cap w' ↔ ProbesFit w call
  := by
  rcases h.step hstep with ⟨hs, hfit⟩ | ⟨htable, hfit⟩
  · apply iff_of_true hs hfit
  · apply iff_of_false (not_sound_of_table htable) hfit

/-- The table of ids is a slot map in all states of a run exactly when it is for at most 2^30 ids and no insertion
probes a sum that overflows before it finds a free slot. -/
theorem always_slotMap_iff {max : ℕ} (hmax : max < 2 ^ 31) (calls : List Call) :
  machine.Always (fun w => ∃ hi, SlotMap max w hi) (.initial max) calls ↔
    max ≤ 2 ^ 30 ∧ machine.Guarded ProbesFit (.initial max) calls
  := by
  rcases Nat.lt_or_ge (2 ^ 30) max with hgt | hle
  · have hloop : hashcapLoop max 27 16 = none :=
      hashcapLoop_of_gt (by omega) 27 (.inr (.inr ⟨4, by omega, rfl⟩))
    apply iff_of_false
    · intro h
      obtain ⟨hi, hmap⟩ := h.here
      have htable : init max = some hi := hmap.table
      rw [init, hloop] at htable
      cases htable
    · rintro ⟨hle, -⟩
      omega
  · obtain ⟨hi, hinit, hr, hcap⟩ := init_represents hle
    have hsound : Sound max (.initial max) := ⟨hi, hinit, hr, hcap⟩
    rw [and_iff_right hle, ← Machine.always_iff_guarded (P := Sound max) (fun _ _ _ => sound_step_iff) hsound]
    constructor
    · apply Machine.Always.strengthen _ hsound
      intro w call w' hw hstep hmap
      rcases hw.step hstep with ⟨hs, -⟩ | ⟨htable, -⟩
      · apply hs
      · obtain ⟨hi, hmap⟩ := hmap
        rw [hmap.table] at htable
        cases htable
    · apply Machine.Always.mono
      intro w h
      apply h.slotMap

/-- Three ids of one bucket, of which the middle one of the chain is removed; the slot of the next id is taken, so that
it gets the one that is free again. -/
theorem always_slotMap_chain :
  machine.Always (fun w => ∃ hi, SlotMap 3 w hi) (.initial 3)
    [.insert 1, .insert 17, .insert 33, .remove 17, .insert 4, .lookup 1]
  := by
  have hfit : ∀ (w : World) (id : ℤ), id ≤ 33 → (w.table.map cap).getD 0 = 3 → ProbesFit w (.insert id) := by
    intro w id hid hcap hi htable i hi' _
    left
    rw [htable, Option.map_some, Option.getD_some] at hcap
    omega
  apply (always_slotMap_iff (by decide) _).mpr
  use by decide
  apply Machine.Guarded.cons rfl (hfit _ _ (by decide) rfl)
  apply Machine.Guarded.cons rfl (hfit _ _ (by decide) rfl)
  apply Machine.Guarded.cons rfl (hfit _ _ (by decide) rfl)
  apply Machine.Guarded.cons rfl trivial
  apply Machine.Guarded.cons rfl (hfit _ _ (by decide) rfl)
  apply Machine.Guarded.cons rfl trivial
  trivial
/-- The id 2^31-1 has the remainder 1.  When this slot is taken, the next probe overflows. -/
theorem insert_overflows :
  ¬ machine.Always (fun w => ∃ hi, SlotMap 3 w hi) (.initial 3) [.insert 1, .insert 2147483647]
  := by
  intro h
  obtain ⟨hi, hmap⟩ := ((h.2 _ rfl).2 _ rfl).here
  cases hmap.table

end Hashid

end Skynet
