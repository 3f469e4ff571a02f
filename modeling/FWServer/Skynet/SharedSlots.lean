import FWServer.Kernel.Chains
import FWServer.Seri.Entries
import FWServer.Skynet.SharedKeys

/-!
# The slots of a shared table

What `convtable` makes of a table whose integer keys fit an `int`.  The first pass puts a key where it belongs, if it
comes first there; the second puts the others into the slots that are left, and chains them to where they belong.
-/

namespace Skynet

namespace Sharedata

open Seri (Object Table lookup)
open Chains (Chained)

/-- A node has the key and the value of an entry. -/
structure Stores (set : Object → Strings → Option (Val × Strings)) (S : Strings) (sizearray : ℕ) (n : Node Val)
    (e : Object × Object) : Prop where
  placed : placed S sizearray e.1 = .hash n.key n.keyhash
  key : pushkey S n = some e.1
  value : Produced set S e.2 n.v

/-- The slot where a node belongs. -/
def Node.home (sizehash : ℕ) (n : Node Val) : ℕ :=
  n.keyhash.toNat % sizehash

/-! ### The array -/

/-- A value is what is copied of the entry for an index, or `nil` if there is none. -/
def ValueAt (set : Object → Strings → Option (Val × Strings)) (S : Strings) (entries : List (Object × Object)) (i : ℕ)
    (x : Val) : Prop :=
  (∃ e ∈ entries, e.1 = .integer (Int64.ofNat (i + 1)) ∧ Produced set S e.2 x)
    ∨ (∀ e ∈ entries, e.1 ≠ .integer (Int64.ofNat (i + 1))) ∧ x = .nil

/-- The array has the values of some entries. -/
structure ArrayOf (set : Object → Strings → Option (Val × Strings)) (S : Strings) (sizearray : ℕ)
    (done : List (Object × Object)) (array : List Val) : Prop where
  length : array.length = sizearray
  value : ∀ i < sizearray, ∃ x, array[i]? = some x ∧ ValueAt set S done i x

section

variable {set : Object → Strings → Option (Val × Strings)} {S s s' : Strings} {sizearray sizehash : ℕ}
  {tbl tbl' : Conf Val} {e : Object × Object} {done entries : List (Object × Object)} {array : List Val}

theorem arrayOf_nil :
  ArrayOf set S sizearray [] (List.replicate sizearray .nil) where
  length := List.length_replicate
  value := by
    intro i hi
    exact ⟨.nil, List.getElem?_replicate_of_lt hi, Or.inr ⟨fun e he => absurd he List.not_mem_nil, rfl⟩⟩

/-- An entry for another index changes nothing. -/
theorem ValueAt.append {i : ℕ} {x : Val} (h : ValueAt set S done i x) (hne : e.1 ≠ .integer (Int64.ofNat (i + 1))) :
  ValueAt set S (done ++ [e]) i x
  := by
  rcases h with ⟨e', he', hkey⟩ | ⟨hnone, rfl⟩
  · exact Or.inl ⟨e', List.mem_append_left _ he', hkey⟩
  · refine Or.inr ⟨?_, rfl⟩
    intro e' he'
    rcases List.mem_append.mp he' with he' | he'
    · exact hnone e' he'
    · rw [List.mem_singleton.mp he']
      exact hne

/-- An entry whose key is not in the array. -/
theorem ArrayOf.append (h : ArrayOf set S sizearray done array)
    (hne : ∀ i < sizearray, e.1 ≠ .integer (Int64.ofNat (i + 1))) :
  ArrayOf set S sizearray (done ++ [e]) array where
  length := h.length
  value := by
    intro i hi
    obtain ⟨x, hx, hvalue⟩ := h.value i hi
    exact ⟨x, hx, hvalue.append (hne i hi)⟩

/-- An entry whose key is in the array. -/
theorem ArrayOf.put {j : ℕ} {x : Val} (h : ArrayOf set S sizearray done array) (hlt : sizearray < 2 ^ 31)
    (hkey : e.1 = .integer (Int64.ofNat j)) (hpos : 0 < j) (hle : j ≤ sizearray) (hx : Produced set S e.2 x) :
  ArrayOf set S sizearray (done ++ [e]) (array.set (j - 1) x) where
  length := (List.length_set ..).trans h.length
  value := by
    intro i hi
    rcases eq_or_ne (j - 1) i with rfl | hne
    · refine ⟨x, List.getElem?_set_self (by rw [h.length]; exact hi), Or.inl ?_⟩
      refine ⟨e, List.mem_append_right _ List.mem_cons_self, ?_, hx⟩
      rw [hkey, Nat.sub_add_cancel hpos]
    · obtain ⟨y, hy, hvalue⟩ := h.value i hi
      refine ⟨y, by rw [List.getElem?_set_ne hne]; exact hy, hvalue.append ?_⟩
      rw [hkey]
      intro heq
      have hints := congrArg Int64.toInt (Object.integer.inj heq)
      rw [Int64.toInt_ofNat_of_lt (by omega), Int64.toInt_ofNat_of_lt (by omega)] at hints
      omega

/-- A key that belongs in a slot is not in the array. -/
theorem ne_ofNat_of_placed {k : NodeKey} {keyhash : UInt32} {key : Object} (hlt : sizearray < 2 ^ 31)
    (h : placed S sizearray key = .hash k keyhash) (i : ℕ) (hi : i < sizearray) :
  key ≠ .integer (Int64.ofNat (i + 1))
  := by
  rintro rfl
  rw [placed_ofNat (Nat.succ_pos i) hi (by omega)] at h
  cases h

/-! ### The first pass -/

/-- The slots after the first pass over some entries: each node is where it belongs. -/
structure Spread (set : Object → Strings → Option (Val × Strings)) (S : Strings) (sizearray sizehash : ℕ)
    (done : List (Object × Object)) (tbl : Conf Val) : Prop where
  array : ArrayOf set S sizearray done tbl.array
  length : tbl.hash.length = sizehash
  stored : ∀ (i : ℕ) n, tbl.hash[i]? = some (some n) →
    n.home sizehash = i ∧ n.next = none ∧ ∃ e ∈ done, Stores set S sizearray n e
  filled : ∀ e ∈ done, ∀ k keyhash, placed S sizearray e.1 = .hash k keyhash →
    ∃ n, tbl.hash[keyhash.toNat % sizehash]? = some (some n)

/-- What one turn of the first pass does. -/
theorem fillnocollidingStep_cases (hkey : IsShared e.1) (h : fillnocollidingStep set tbl s e = some (tbl', s'))
    (hset : Extends set) (hS : s' <+: S) :
  (∃ j x, placed S tbl.array.length e.1 = .array j ∧ Produced set S e.2 x
      ∧ tbl' = { tbl with array := tbl.array.set (j - 1) x })
  ∨ (∃ k keyhash, placed S tbl.array.length e.1 = .hash k keyhash
      ∧ (∀ n : Node Val, n.key = k → pushkey S n = some e.1)
      ∧ ((∃ x, tbl.hash[keyhash.toNat % tbl.hash.length]? = some none ∧ Produced set S e.2 x
          ∧ tbl' = { tbl with
              hash := tbl.hash.set (keyhash.toNat % tbl.hash.length) (some ⟨x, k, none, keyhash, true⟩) })
        ∨ (∃ n, tbl.hash[keyhash.toNat % tbl.hash.length]? = some (some n)) ∧ tbl' = tbl))
  := by
  have hspec := ishashkey_spec tbl.array.length s hkey ((grows_fillnocollidingStep hset h).strings.trans hS)
  rw [fillnocollidingStep] at h
  generalize ishashkey tbl.array.length e.1 s = place at h hspec
  obtain ⟨place, s₁⟩ := place
  obtain ⟨hplace, hpush⟩ := hspec
  cases place with
  | array j =>
      obtain ⟨⟨x, s₂⟩, hx, heq⟩ := Option.map_eq_some_iff.mp h
      obtain ⟨rfl, rfl⟩ := Prod.mk.inj heq
      exact Or.inl ⟨j, x, hplace.symm, ⟨s₁, s₂, hx, hS⟩, rfl⟩
  | hash k keyhash =>
      refine Or.inr ⟨k, keyhash, hplace.symm, fun n => hpush k keyhash n hplace.symm, ?_⟩
      dsimp only at h
      split at h
      · next hnone =>
          obtain ⟨⟨x, s₂⟩, hx, heq⟩ := Option.map_eq_some_iff.mp h
          obtain ⟨rfl, rfl⟩ := Prod.mk.inj heq
          exact Or.inl ⟨x, hnone, ⟨s₁, s₂, hx, hS⟩, rfl⟩
      · next n hn =>
          obtain ⟨rfl, rfl⟩ := Prod.mk.inj (Option.some.inj h)
          exact Or.inr ⟨⟨n, hn⟩, rfl⟩
      · cases h

theorem spread_nil :
  Spread set S sizearray sizehash [] ⟨List.replicate sizearray .nil, List.replicate sizehash none⟩ where
  array := arrayOf_nil
  length := List.length_replicate
  stored := by
    intro i n hi
    cases List.eq_of_mem_replicate (List.mem_of_getElem? hi)
  filled := fun _ he => absurd he List.not_mem_nil

/-- A turn of the first pass. -/
theorem Spread.step (h : Spread set S sizearray sizehash done tbl) (hlt : sizearray < 2 ^ 31) (hkey : IsShared e.1)
    (hset : Extends set) (hstep : fillnocollidingStep set tbl s e = some (tbl', s')) (hS : s' <+: S) :
  Spread set S sizearray sizehash (done ++ [e]) tbl'
  := by
  have hcases := fillnocollidingStep_cases hkey hstep hset hS
  rw [h.array.length, h.length] at hcases
  -- what has been stored of the entries before
  have hstored : ∀ (i : ℕ) n, tbl.hash[i]? = some (some n) →
      n.home sizehash = i ∧ n.next = none ∧ ∃ e' ∈ done ++ [e], Stores set S sizearray n e' := by
    intro i n hi
    obtain ⟨hhome, hnext, e', he', hn⟩ := h.stored i n hi
    exact ⟨hhome, hnext, e', List.mem_append_left _ he', hn⟩
  rcases hcases with ⟨j, x, hplaced, hx, rfl⟩ | ⟨k, keyhash, hplaced, hpush, hslot⟩
  · obtain ⟨hj, hpos, hle⟩ := eq_ofNat_of_placed hkey hplaced
    refine ⟨h.array.put hlt hj hpos hle hx, h.length, hstored, ?_⟩
    intro e' he' k keyhash hplaced'
    rcases List.mem_append.mp he' with he' | he'
    · exact h.filled e' he' k keyhash hplaced'
    · rw [List.mem_singleton.mp he', hplaced] at hplaced'
      cases hplaced'
  · have harray := h.array.append (ne_ofNat_of_placed hlt hplaced)
    rcases hslot with ⟨x, hnone, hx, rfl⟩ | ⟨⟨n, hn⟩, rfl⟩
    · have hlen := (List.getElem?_eq_some_iff.mp hnone).1
      refine ⟨harray, (List.length_set ..).trans h.length, ?_, ?_⟩
      · intro i n hi
        rcases eq_or_ne (keyhash.toNat % sizehash) i with rfl | hne
        · rw [List.getElem?_set_self hlen] at hi
          obtain rfl := Option.some.inj (Option.some.inj hi)
          exact ⟨rfl, rfl, e, List.mem_append_right _ List.mem_cons_self, hplaced, hpush _ rfl, hx⟩
        · rw [List.getElem?_set_ne hne] at hi
          exact hstored i n hi
      · intro e' he' k' keyhash' hplaced'
        rcases eq_or_ne (keyhash.toNat % sizehash) (keyhash'.toNat % sizehash) with heq | hne
        · rw [← heq]
          exact ⟨_, List.getElem?_set_self hlen⟩
        · rw [List.getElem?_set_ne hne]
          rcases List.mem_append.mp he' with he' | he'
          · exact h.filled e' he' k' keyhash' hplaced'
          · rw [List.mem_singleton.mp he', hplaced] at hplaced'
            exact absurd (congrArg (fun h => UInt32.toNat h % sizehash) (Place.hash.inj hplaced').2) hne
    · refine ⟨harray, h.length, hstored, ?_⟩
      intro e' he' k' keyhash' hplaced'
      rcases List.mem_append.mp he' with he' | he'
      · exact h.filled e' he' k' keyhash' hplaced'
      · rw [List.mem_singleton.mp he', hplaced] at hplaced'
        rw [← (Place.hash.inj hplaced').2]
        exact ⟨n, hn⟩

/-- The first pass over any number of entries. -/
theorem spread_fill (hlt : sizearray < 2 ^ 31) (hkeys : ∀ e ∈ entries, IsShared e.1) (hset : Extends set)
    (hpre : done <+: entries)
    (h : fillnocolliding set done ⟨List.replicate sizearray .nil, List.replicate sizehash none⟩ s = some (tbl', s'))
    (hS : s' <+: S) :
  Spread set S sizearray sizehash done tbl'
  := by
  refine fill_invariant (stepGrows_fillnocollidingStep hset) ?_ spread_nil hpre h hS
  intro done e tbl s tbl' s' hdone hspread hstep hS
  have he : e ∈ entries := hdone.subset (List.mem_append_right done List.mem_cons_self)
  exact hspread.step hlt (hkeys e he) hset hstep hS

/-- Nodes with the same key are in the same slot after the first pass. -/
theorem Spread.nodup (h : Spread set S sizearray sizehash done tbl) :
  (tbl.hash.reduceOption.map (pushkey S)).Nodup
  := by
  rw [Chains.nodup_map_reduceOption_iff]
  intro i j n m hi hj hkey
  obtain ⟨hhome, -, e, -, hn⟩ := h.stored i n hi
  obtain ⟨hhome', -, e', -, hm⟩ := h.stored j m hj
  have he : e.1 = e'.1 := Option.some.inj (hn.key.symm.trans (hkey.trans hm.key))
  have hplaced := hn.placed
  rw [he, hm.placed] at hplaced
  rw [← hhome, ← hhome', Node.home, Node.home, (Place.hash.inj hplaced).2]

/-! ### The second pass -/

/-- The slots when a node has been put into the slot `j`, after the node `m` at its main position `i`. -/
def chainAfter (hash : List (Option (Node Val))) (i j : ℕ) (m n : Node Val) : List (Option (Node Val)) :=
  (hash.set i (some { m with next := some j, nocolliding := false })).set j (some n)

/-- What one turn of the second pass does. -/
theorem fillcollidingStep_cases (hkey : IsShared e.1) (h : fillcollidingStep set tbl s e = some (tbl', s'))
    (hset : Extends set) (hS : s' <+: S) :
  (∃ j, placed S tbl.array.length e.1 = .array j ∧ tbl' = tbl)
  ∨ (∃ k keyhash m, placed S tbl.array.length e.1 = .hash k keyhash
      ∧ (∀ n : Node Val, n.key = k → pushkey S n = some e.1)
      ∧ tbl.hash[keyhash.toNat % tbl.hash.length]? = some (some m)
      ∧ (m.key = k ∧ tbl' = tbl
        ∨ m.key ≠ k ∧ ∃ j x, tbl.hash[j]? = some none ∧ Produced set S e.2 x
          ∧ tbl' = ⟨tbl.array, chainAfter tbl.hash (keyhash.toNat % tbl.hash.length) j m
              ⟨x, k, m.next, keyhash, false⟩⟩))
  := by
  have hspec := ishashkey_spec tbl.array.length s hkey ((grows_fillcollidingStep hset h).strings.trans hS)
  rw [fillcollidingStep] at h
  generalize ishashkey tbl.array.length e.1 s = place at h hspec
  obtain ⟨place, s₁⟩ := place
  obtain ⟨hplace, hpush⟩ := hspec
  cases place with
  | array j =>
      obtain ⟨rfl, rfl⟩ := Prod.mk.inj (Option.some.inj h)
      exact Or.inl ⟨j, hplace.symm, rfl⟩
  | hash k keyhash =>
      dsimp only at h
      split at h
      · next m hm =>
          refine Or.inr ⟨k, keyhash, m, hplace.symm, fun n => hpush k keyhash n hplace.symm, hm, ?_⟩
          split_ifs at h with hk
          · obtain ⟨rfl, rfl⟩ := Prod.mk.inj (Option.some.inj h)
            exact Or.inl ⟨hk, rfl⟩
          · split at h
            · cases h
            · next j hj =>
                obtain ⟨⟨x, s₂⟩, hx, heq⟩ := Option.map_eq_some_iff.mp h
                obtain ⟨rfl, rfl⟩ := Prod.mk.inj heq
                obtain ⟨hlen, hnone, -⟩ := List.findIdx?_eq_some_iff_getElem.mp hj
                have hslot : tbl.hash[j]? = some none := by
                  rw [List.getElem?_eq_getElem hlen, Option.isNone_iff_eq_none.mp hnone]
                exact Or.inr ⟨hk, j, x, hslot, ⟨s₁, s₂, hx, hS⟩, rfl⟩
      · cases h

section

variable {hash : List (Option (Node Val))} {i j q : ℕ} {m n n' : Node Val}

theorem getElem?_chainAfter_new (hj : hash[j]? = some none) :
  (chainAfter hash i j m n)[j]? = some (some n)
  := List.getElem?_set_self (by rw [List.length_set]; exact (List.getElem?_eq_some_iff.mp hj).1)

variable (hi : hash[i]? = some (some m)) (hj : hash[j]? = some none)
include hi hj

theorem ne_of_slots :
  i ≠ j
  := by
  rintro rfl
  cases hi.symm.trans hj

theorem getElem?_chainAfter_main :
  (chainAfter hash i j m n)[i]? = some (some { m with next := some j, nocolliding := false })
  := by
  rw [chainAfter, List.getElem?_set_ne (ne_of_slots hi hj).symm,
    List.getElem?_set_self (List.getElem?_eq_some_iff.mp hi).1]

/-- What is in a slot then: the new node, its main position, or what was there. -/
theorem chainAfter_cases (h : (chainAfter hash i j m n)[q]? = some (some n')) :
  q = j ∧ n' = n ∨ q = i ∧ n' = { m with next := some j, nocolliding := false } ∨ hash[q]? = some (some n')
  := by
  rcases eq_or_ne q j with rfl | hqj
  · rw [getElem?_chainAfter_new hj] at h
    exact Or.inl ⟨rfl, (Option.some.inj (Option.some.inj h)).symm⟩
  · rcases eq_or_ne q i with rfl | hqi
    · rw [getElem?_chainAfter_main hi hj] at h
      exact Or.inr (Or.inl ⟨rfl, (Option.some.inj (Option.some.inj h)).symm⟩)
    · rw [chainAfter, List.getElem?_set_ne hqj.symm, List.getElem?_set_ne hqi.symm] at h
      exact Or.inr (Or.inr h)

/-- A slot that was filled still is. -/
theorem filled_chainAfter (h : hash[q]? = some (some n')) :
  ∃ n', (chainAfter hash i j m n)[q]? = some (some n')
  := by
  rcases eq_or_ne q i with rfl | hqi
  · exact ⟨_, getElem?_chainAfter_main hi hj⟩
  · have hqj : q ≠ j := by
      rintro rfl
      cases h.symm.trans hj
    rw [chainAfter, List.getElem?_set_ne hqj.symm, List.getElem?_set_ne hqi.symm]
    exact ⟨n', h⟩

theorem chained_chainAfter {head : ℕ → Prop} (h : Chained hash Node.next (Node.home sizehash) head) (hhead : head i)
    (hheads : ∀ i : ℕ, head i → ∃ n, hash[i]? = some (some n)) (hnext : n.next = m.next)
    (hhome : n.home sizehash = i) :
  Chained (chainAfter hash i j m n) Node.next (Node.home sizehash) head
  := by
  have hjhead : ¬ head j := by
    intro hhead
    obtain ⟨n, hn⟩ := hheads j hhead
    cases hn.symm.trans hj
  exact Chains.Chained.insert hi hhead hj rfl hnext h hjhead rfl hhome

theorem keys_chainAfter :
  ((chainAfter hash i j m n).reduceOption.map (pushkey S)).Perm
    (pushkey S n :: hash.reduceOption.map (pushkey S))
  := by
  have hnone : (hash.set i (some { m with next := some j, nocolliding := false }))[j]? = some none := by
    rw [List.getElem?_set_ne (ne_of_slots hi hj)]
    exact hj
  have hperm := (Chains.reduceOption_set_none hnone n).map (pushkey S)
  have hmain : (hash.set i (some { m with next := some j, nocolliding := false })).reduceOption.map (pushkey S)
      = hash.reduceOption.map (pushkey S) := Chains.map_reduceOption_set hi rfl
  rwa [List.map_cons, hmain] at hperm

end

/-- The slots after the second pass over some entries: `head` says which were filled in the first. -/
structure Chaining (set : Object → Strings → Option (Val × Strings)) (S : Strings) (sizearray sizehash : ℕ)
    (head : ℕ → Prop) (entries done : List (Object × Object)) (tbl : Conf Val) : Prop where
  array : ArrayOf set S sizearray entries tbl.array
  length : tbl.hash.length = sizehash
  chained : Chained tbl.hash Node.next (Node.home sizehash) head
  heads : ∀ i : ℕ, head i → ∃ n, tbl.hash[i]? = some (some n)
  stored : ∀ (i : ℕ) n, tbl.hash[i]? = some (some n) → ∃ e ∈ entries, Stores set S sizearray n e
  origin : ∀ (i : ℕ) n, tbl.hash[i]? = some (some n) → n.home sizehash = i ∨ ∃ e ∈ done, pushkey S n = some e.1
  single : ∀ (i : ℕ) n, tbl.hash[i]? = some (some n) → n.nocolliding = true → n.next = none
  nodup : (tbl.hash.reduceOption.map (pushkey S)).Nodup
  present : ∀ e ∈ done, ∀ k keyhash, placed S sizearray e.1 = .hash k keyhash →
    some e.1 ∈ tbl.hash.reduceOption.map (pushkey S)

section

variable {head : ℕ → Prop}

/-- The second pass starts with what the first has done. -/
theorem Spread.chaining (h : Spread set S sizearray sizehash entries tbl) :
  Chaining set S sizearray sizehash (fun i : ℕ => ∃ n, tbl.hash[i]? = some (some n)) entries [] tbl where
  array := h.array
  length := h.length
  chained := .of_home (fun _ n hi => ⟨n, hi⟩) fun i n hi => ⟨(h.stored i n hi).1, (h.stored i n hi).2.1⟩
  heads := fun _ hi => hi
  stored := fun i n hi => (h.stored i n hi).2.2
  origin := fun i n hi => Or.inl (h.stored i n hi).1
  single := fun i n hi _ => (h.stored i n hi).2.1
  nodup := h.nodup
  present := fun _ he => absurd he List.not_mem_nil

/-- A key that is not at its main position has not been put in before its turn. -/
theorem Chaining.fresh {k : NodeKey} {keyhash : UInt32} {m : Node Val}
    (h : Chaining set S sizearray sizehash head entries done tbl) (hnew : ∀ e' ∈ done, e'.1 ≠ e.1)
    (hplaced : placed S sizearray e.1 = .hash k keyhash) (hm : tbl.hash[keyhash.toNat % sizehash]? = some (some m))
    (hk : m.key ≠ k) :
  some e.1 ∉ tbl.hash.reduceOption.map (pushkey S)
  := by
  intro hmem
  obtain ⟨n, hn, hpushn⟩ := List.mem_map.mp hmem
  obtain ⟨q, hq⟩ := Chains.mem_reduceOption.mp hn
  obtain ⟨e', -, hstores⟩ := h.stored q n hq
  have heq : e'.1 = e.1 := Option.some.inj (hstores.key.symm.trans hpushn)
  have hplaced' := hstores.placed
  rw [heq, hplaced] at hplaced'
  obtain ⟨rfl, rfl⟩ := Place.hash.inj hplaced'
  rcases h.origin q n hq with hhome | ⟨e', he', hn'⟩
  · rw [Node.home] at hhome
    rw [hhome, hq] at hm
    exact hk (congrArg Node.key (Option.some.inj (Option.some.inj hm)).symm)
  · exact hnew e' he' (Option.some.inj (hn'.symm.trans hpushn))

/-- What is in the slots is there for the sake of more entries. -/
theorem Chaining.origin_append (h : Chaining set S sizearray sizehash head entries done tbl) (e : Object × Object)
    {i : ℕ} {n : Node Val} (hi : tbl.hash[i]? = some (some n)) :
  n.home sizehash = i ∨ ∃ e' ∈ done ++ [e], pushkey S n = some e'.1
  := by
  refine (h.origin i n hi).imp_right ?_
  rintro ⟨e', he', hn⟩
  exact ⟨e', List.mem_append_left _ he', hn⟩

/-- An entry for which nothing is done, as its key is there if it belongs in the slots. -/
theorem Chaining.same (h : Chaining set S sizearray sizehash head entries done tbl)
    (hpresent : ∀ k keyhash, placed S sizearray e.1 = .hash k keyhash →
      some e.1 ∈ tbl.hash.reduceOption.map (pushkey S)) :
  Chaining set S sizearray sizehash head entries (done ++ [e]) tbl
  := by
  refine { h with origin := fun i n hi => h.origin_append e hi, present := ?_ }
  intro e' he' k keyhash hplaced
  rcases List.mem_append.mp he' with he' | he'
  · exact h.present e' he' k keyhash hplaced
  · rw [List.mem_singleton.mp he'] at hplaced ⊢
    exact hpresent k keyhash hplaced

/-- An entry that is put in a free slot, after the one at its main position. -/
theorem Chaining.link {k : NodeKey} {keyhash : UInt32} {m : Node Val} {j : ℕ} {x : Val}
    (h : Chaining set S sizearray sizehash head entries done tbl) (he : e ∈ entries) (hnew : ∀ e' ∈ done, e'.1 ≠ e.1)
    (hhead : head (keyhash.toNat % sizehash)) (hplaced : placed S sizearray e.1 = .hash k keyhash)
    (hpush : ∀ n : Node Val, n.key = k → pushkey S n = some e.1)
    (hm : tbl.hash[keyhash.toNat % sizehash]? = some (some m)) (hk : m.key ≠ k) (hj : tbl.hash[j]? = some none)
    (hx : Produced set S e.2 x) :
  Chaining set S sizearray sizehash head entries (done ++ [e])
    ⟨tbl.array, chainAfter tbl.hash (keyhash.toNat % sizehash) j m ⟨x, k, m.next, keyhash, false⟩⟩
  := by
  have hperm := keys_chainAfter (S := S) (n := ⟨x, k, m.next, keyhash, false⟩) hm hj
  have hpushed : pushkey S ⟨x, k, m.next, keyhash, false⟩ = some e.1 := hpush _ rfl
  constructor
  case array => exact h.array
  case length =>
    rw [chainAfter, List.length_set, List.length_set]
    exact h.length
  case chained => exact chained_chainAfter hm hj h.chained hhead h.heads rfl rfl
  case heads =>
    intro i hi
    obtain ⟨n, hn⟩ := h.heads i hi
    exact filled_chainAfter hm hj hn
  case stored =>
    intro i n hi
    rcases chainAfter_cases hm hj hi with ⟨-, rfl⟩ | ⟨-, rfl⟩ | hi
    · exact ⟨e, he, hplaced, hpushed, hx⟩
    · obtain ⟨e', he', hn⟩ := h.stored _ m hm
      exact ⟨e', he', hn.placed, hn.key, hn.value⟩
    · exact h.stored i n hi
  case origin =>
    intro i n hi
    rcases chainAfter_cases hm hj hi with ⟨-, rfl⟩ | ⟨rfl, rfl⟩ | hi
    · exact Or.inr ⟨e, List.mem_append_right _ List.mem_cons_self, hpushed⟩
    · have hmain := h.origin_append e hm
      exact hmain
    · exact h.origin_append e hi
  case single =>
    intro i n hi hsingle
    rcases chainAfter_cases hm hj hi with ⟨-, rfl⟩ | ⟨-, rfl⟩ | hi
    · cases hsingle
    · cases hsingle
    · exact h.single i n hi hsingle
  case nodup =>
    rw [hperm.nodup_iff, hpushed]
    exact List.nodup_cons.mpr ⟨h.fresh hnew hplaced hm hk, h.nodup⟩
  case present =>
    intro e' he' k' keyhash' hplaced'
    rw [hperm.mem_iff, hpushed, List.mem_cons]
    rcases List.mem_append.mp he' with he' | he'
    · exact Or.inr (h.present e' he' k' keyhash' hplaced')
    · exact Or.inl (congrArg (some ∘ Prod.fst) (List.mem_singleton.mp he'))

/-- A turn of the second pass. -/
theorem Chaining.step (h : Chaining set S sizearray sizehash head entries done tbl) (hkey : IsShared e.1)
    (hset : Extends set) (he : e ∈ entries) (hnew : ∀ e' ∈ done, e'.1 ≠ e.1)
    (hmain : ∀ k keyhash, placed S sizearray e.1 = .hash k keyhash → head (keyhash.toNat % sizehash))
    (hstep : fillcollidingStep set tbl s e = some (tbl', s')) (hS : s' <+: S) :
  Chaining set S sizearray sizehash head entries (done ++ [e]) tbl'
  := by
  have hcases := fillcollidingStep_cases hkey hstep hset hS
  rw [h.array.length, h.length] at hcases
  rcases hcases with ⟨j, hplaced, rfl⟩ | ⟨k, keyhash, m, hplaced, hpush, hm, hslot⟩
  · apply h.same
    intro k keyhash hplaced'
    cases hplaced.symm.trans hplaced'
  · rcases hslot with ⟨hk, rfl⟩ | ⟨hk, j, x, hj, hx, rfl⟩
    · apply h.same
      intro _ _ _
      rw [← hpush m hk]
      exact List.mem_map_of_mem (Chains.mem_reduceOption.mpr ⟨_, hm⟩)
    · exact h.link he hnew (hmain k keyhash hplaced) hplaced hpush hm hk hj hx

theorem ne_of_prefix (hnodup : (entries.map Prod.fst).Nodup) (hdone : done ++ [e] <+: entries) {e' : Object × Object}
    (he' : e' ∈ done) :
  e'.1 ≠ e.1
  := by
  have hsub := hnodup.sublist (hdone.sublist.map Prod.fst)
  rw [List.map_append, List.nodup_append] at hsub
  exact hsub.2.2 _ (List.mem_map_of_mem he') _ List.mem_cons_self

/-- The second pass over any number of entries, none of which has the key of another. -/
theorem chaining_fill (hkeys : ∀ e ∈ entries, IsShared e.1) (hnodup : (entries.map Prod.fst).Nodup)
    (hset : Extends set) (hstart : Spread set S sizearray sizehash entries tbl) (hpre : done <+: entries)
    (h : fillcolliding set done tbl s = some (tbl', s')) (hS : s' <+: S) :
  Chaining set S sizearray sizehash (fun i : ℕ => ∃ n, tbl.hash[i]? = some (some n)) entries done tbl'
  := by
  refine fill_invariant (stepGrows_fillcollidingStep hset) ?_ hstart.chaining hpre h hS
  intro done e tbl s tbl' s' hdone hchaining hstep hS
  have he : e ∈ entries := hdone.subset (List.mem_append_right done List.mem_cons_self)
  have hnew : ∀ e' ∈ done, e'.1 ≠ e.1 := fun e' he' => ne_of_prefix hnodup hdone he'
  exact hchaining.step (hkeys e he) hset he hnew (hstart.filled e he) hstep hS

end

end

/-! ### The result -/

def Place.isHash : Place → Bool
  | .array _ => false
  | .hash _ _ => true

/-- What is made of a table: each entry is in the array or in a slot, and no slot is empty. -/
structure Built (set : Object → Strings → Option (Val × Strings)) (S : Strings) (t : Table) (tbl : Conf Val) :
    Prop where
  array : ArrayOf set S t.rawlen t.entries tbl.array
  chained : ∃ head, Chained tbl.hash Node.next (Node.home tbl.hash.length) head
  full : ∀ i < tbl.hash.length, ∃ n, tbl.hash[i]? = some (some n)
  stored : ∀ (i : ℕ) n, tbl.hash[i]? = some (some n) → ∃ e ∈ t.entries, Stores set S t.rawlen n e
  single : ∀ (i : ℕ) n, tbl.hash[i]? = some (some n) → n.nocolliding = true → n.next = none
  keys : (tbl.hash.reduceOption.map (pushkey S)).Perm
    ((t.entries.filter fun e => (placed S t.rawlen e.1).isHash).map fun e => some e.1)

section

variable {set : Object → Strings → Option (Val × Strings)} {S s s' : Strings} {sizearray : ℕ} {t : Table}
  {tbl tbl' : Conf Val} {entries : List (Object × Object)}

theorem isHash_placed_integer {n : Int64} (h : Fits n) :
  (placed S sizearray (.integer n)).isHash = !decide (0 < n.toInt ∧ n.toInt ≤ sizearray)
  := by
  rw [placed, placeOf, h.toInt_eq]
  split_ifs with hmem
  · rw [decide_eq_true hmem]
    rfl
  · rw [decide_eq_false hmem]
    rfl

/-- The slots are as many as the keys that are not in the array. -/
theorem countsize_eq (S : Strings) (hkeys : ∀ e ∈ entries, IsShared e.1) :
  countsize entries sizearray = some (entries.filter fun e => (placed S sizearray e.1).isHash).length
  := by
  induction entries with
  | nil => rfl
  | cons e entries ih =>
      obtain ⟨key, v⟩ := e
      have hrest := ih fun e he => hkeys e (List.mem_cons_of_mem _ he)
      have hkey := hkeys (key, v) List.mem_cons_self
      cases key with
      | integer n =>
          rw [countsize, hrest, List.filter_cons, isHash_placed_integer hkey, Option.map_some]
          by_cases hmem : 0 < n.toInt ∧ n.toInt ≤ sizearray
          · rw [if_pos hmem, decide_eq_true hmem]
            rfl
          · rw [if_neg hmem, decide_eq_false hmem]
            rfl
      | string str =>
          rw [countsize, hrest]
          rfl
      | _ => exact hkey.elim

theorem nodup_hashKeys (S : Strings) (t : Table) :
  ((t.entries.filter fun e => (placed S t.rawlen e.1).isHash).map fun e => some e.1).Nodup
  := by
  have hsub : (t.entries.filter fun e => (placed S t.rawlen e.1).isHash).Sublist t.entries := List.filter_sublist
  have hsome := (t.keys_nodup.sublist (hsub.map Prod.fst)).map (Option.some_injective Object)
  rwa [List.map_map] at hsome

theorem Chaining.built {head : ℕ → Prop} (h : Chaining set S t.rawlen tbl.hash.length head t.entries t.entries tbl)
    (hcount : (t.entries.filter fun e => (placed S t.rawlen e.1).isHash).length = tbl.hash.length) :
  Built set S t tbl
  := by
  have hperm : (tbl.hash.reduceOption.map (pushkey S)).Perm
      ((t.entries.filter fun e => (placed S t.rawlen e.1).isHash).map fun e => some e.1) := by
    rw [List.perm_ext_iff_of_nodup h.nodup (nodup_hashKeys S t)]
    intro key
    constructor
    · intro hkey
      obtain ⟨n, hn, rfl⟩ := List.mem_map.mp hkey
      obtain ⟨i, hi⟩ := Chains.mem_reduceOption.mp hn
      obtain ⟨e, he, hstores⟩ := h.stored i n hi
      refine List.mem_map.mpr ⟨e, List.mem_filter.mpr ⟨he, ?_⟩, hstores.key.symm⟩
      rw [hstores.placed]
      rfl
    · intro hkey
      obtain ⟨e, he, rfl⟩ := List.mem_map.mp hkey
      obtain ⟨he, hhash⟩ := List.mem_filter.mp he
      cases hplaced : placed S t.rawlen e.1 with
      | array j =>
          rw [hplaced] at hhash
          cases hhash
      | hash k keyhash => exact h.present e he k keyhash hplaced
  have hlength := hperm.length_eq
  rw [List.length_map, List.length_map, hcount] at hlength
  have hfull := List.reduceOption_length_eq_iff.mp hlength
  refine ⟨h.array, ⟨head, h.chained⟩, ?_, h.stored, h.single, hperm⟩
  intro i hi
  obtain ⟨n, hn⟩ := Option.isSome_iff_exists.mp (hfull _ (List.getElem_mem hi))
  exact ⟨n, by rw [List.getElem?_eq_getElem hi, hn]⟩

/-- What is copied of an index is its value in the table. -/
theorem valueAt_lookup {i : ℕ} {x : Val} (hnil : ∀ s, set .nil s = some (.nil, s))
    (hx : set (lookup t.entries (.integer (Int64.ofNat (i + 1)))) s = some (x, s')) (hS : s' <+: S) :
  ValueAt set S t.entries i x
  := by
  by_cases hmem : ∃ e ∈ t.entries, e.1 = .integer (Int64.ofNat (i + 1))
  · obtain ⟨e, he, hkey⟩ := hmem
    rw [← hkey, Seri.lookup_eq_of_mem he] at hx
    exact Or.inl ⟨e, he, hkey, s, s', hx, hS⟩
  · have hnone : ∀ e ∈ t.entries, e.1 ≠ .integer (Int64.ofNat (i + 1)) := fun e he hkey => hmem ⟨e, he, hkey⟩
    have hlookup : lookup t.entries (.integer (Int64.ofNat (i + 1))) = .nil := by
      by_contra hne
      exact hnone _ (Seri.mem_of_lookup hne) rfl
    rw [hlookup, hnil] at hx
    exact Or.inr ⟨hnone, (Prod.mk.inj (Option.some.inj hx)).1.symm⟩

/-- The loop over the array, after `i` turns. -/
theorem arrayOf_fillarray {i turns : ℕ} (hnil : ∀ s, set .nil s = some (.nil, s)) (hset : Extends set)
    (h : fillarray set t.entries turns (i + 1) tbl s = some (tbl', s')) (hS : s' <+: S)
    (hlength : tbl.array.length = t.rawlen) (hturns : i + turns = t.rawlen)
    (hdone : ∀ j < i, ∃ x, tbl.array[j]? = some x ∧ ValueAt set S t.entries j x) :
  ArrayOf set S t.rawlen t.entries tbl'.array ∧ tbl'.hash = tbl.hash
  := by
  induction turns generalizing i tbl s with
  | zero =>
      obtain ⟨rfl, rfl⟩ := Prod.mk.inj (Option.some.inj h)
      rw [Nat.add_zero] at hturns
      rw [hturns] at hdone
      exact ⟨⟨hlength, hdone⟩, rfl⟩
  | succ turns ih =>
      rw [fillarray] at h
      split at h
      · cases h
      · next tbl₁ s₁ hstep =>
          obtain ⟨⟨x, s₂⟩, hx, heq⟩ := Option.map_eq_some_iff.mp hstep
          obtain ⟨rfl, rfl⟩ := Prod.mk.inj heq
          have hgrow := hset _ _ _ _ hx
          have hlen : (tbl.array.set i x).length = t.rawlen := (List.length_set ..).trans hlength
          have hpre : s₂ <+: s' := (grows_fillarray hset h).strings
          have hdone' : ∀ j < i + 1, ∃ y, (tbl.array.set i x)[j]? = some y ∧ ValueAt set S t.entries j y := by
            intro j hj
            rcases eq_or_ne i j with rfl | hne
            · exact ⟨x, List.getElem?_set_self (by omega), valueAt_lookup hnil hx (hpre.trans hS)⟩
            · rw [List.getElem?_set_ne hne]
              exact hdone j (by omega)
          have hrest := ih h
          exact hrest hlen (by omega) hdone'

/-- `convtable` builds a table whose integer keys fit an `int`. -/
theorem convert_built (hkeys : ∀ e ∈ t.entries, IsShared e.1) (hnil : ∀ s, set .nil s = some (.nil, s))
    (hset : Extends set) (h : convert set t s = some (tbl, s')) (hS : s' <+: S) :
  Built set S t tbl
  := by
  rw [convert, countsize_eq S hkeys] at h
  dsimp only at h
  generalize hsize : (t.entries.filter fun e => (placed S t.rawlen e.1).isHash).length = sizehash at h
  split_ifs at h with hlarge hzero
  · obtain ⟨harray, hhash⟩ := arrayOf_fillarray (i := 0) hnil hset h hS List.length_replicate (Nat.zero_add _)
      fun j hj => absurd hj (Nat.not_lt_zero j)
    rw [hzero] at hhash hsize
    have hempty : tbl.hash = [] := hhash
    refine ⟨harray, ⟨fun _ => False, ?_⟩, ?_, ?_, ?_, ?_⟩
    · rw [hempty]
      exact .of_home (fun i n hi => by cases hi) fun i n hi => by cases hi
    · rw [hempty]
      exact fun i hi => absurd hi (Nat.not_lt_zero i)
    · rw [hempty]
      exact fun i n hi => by cases hi
    · rw [hempty]
      exact fun i n hi => by cases hi
    · rw [hempty, List.length_eq_zero_iff.mp hsize]
      exact .refl _
  · split at h
    · cases h
    · next tbl₁ s₁ hfirst =>
        have hpre : s₁ <+: s' := (grows_fill (stepGrows_fillcollidingStep hset) h).strings
        have hspread := spread_fill t.rawlen_lt hkeys hset List.prefix_rfl hfirst (hpre.trans hS)
        have hchaining := chaining_fill hkeys t.keys_nodup hset hspread List.prefix_rfl h hS
        have hlength := hchaining.length
        rw [← hlength] at hchaining hsize
        exact hchaining.built hsize

/-! ### The conversion returns -/

/-- Values of a table can be copied. -/
def Total (set : Object → Strings → Option (Val × Strings)) (entries : List (Object × Object)) : Prop :=
  ∀ e ∈ entries, ∀ s, ∃ r, set e.2 s = some r

/-- A turn of the first pass returns. -/
theorem fillnocollidingStep_total {e : Object × Object} (hset : ∀ s, ∃ r, set e.2 s = some r)
    (hpos : 0 < tbl.hash.length) :
  ∃ r, fillnocollidingStep set tbl s e = some r
  := by
  rw [fillnocollidingStep]
  obtain ⟨place, s₁⟩ := ishashkey tbl.array.length e.1 s
  obtain ⟨r, hr⟩ := hset s₁
  cases place with
  | array j => exact ⟨_, Option.map_eq_some_iff.mpr ⟨r, hr, rfl⟩⟩
  | hash k keyhash =>
      dsimp only
      split
      · exact ⟨_, Option.map_eq_some_iff.mpr ⟨r, hr, rfl⟩⟩
      · exact ⟨_, rfl⟩
      · next hnone =>
          have hle := List.getElem?_eq_none_iff.mp hnone
          exact absurd (Nat.mod_lt keyhash.toNat hpos) (Nat.not_lt.mpr hle)

/-- There is an empty slot for a key that has not been put in. -/
theorem Chaining.exists_empty {head : ℕ → Prop} {sizehash : ℕ} {done : List (Object × Object)} {e : Object × Object}
    (h : Chaining set S t.rawlen sizehash head t.entries done tbl) (he : e ∈ t.entries)
    (hhash : (placed S t.rawlen e.1).isHash = true)
    (hcount : (t.entries.filter fun e => (placed S t.rawlen e.1).isHash).length = sizehash)
    (hfresh : some e.1 ∉ tbl.hash.reduceOption.map (pushkey S)) :
  none ∈ tbl.hash
  := by
  have hsub : some e.1 :: tbl.hash.reduceOption.map (pushkey S) ⊆
      (t.entries.filter fun e => (placed S t.rawlen e.1).isHash).map fun e => some e.1 := by
    intro key hkey
    rcases List.mem_cons.mp hkey with rfl | hkey
    · exact List.mem_map.mpr ⟨e, List.mem_filter.mpr ⟨he, hhash⟩, rfl⟩
    · obtain ⟨n, hn, rfl⟩ := List.mem_map.mp hkey
      obtain ⟨i, hi⟩ := Chains.mem_reduceOption.mp hn
      obtain ⟨e', he', hstores⟩ := h.stored i n hi
      refine List.mem_map.mpr ⟨e', List.mem_filter.mpr ⟨he', ?_⟩, hstores.key.symm⟩
      rw [hstores.placed]
      rfl
  have hle := (List.subperm_of_subset (List.nodup_cons.mpr ⟨hfresh, h.nodup⟩) hsub).length_le
  rw [List.length_cons, List.length_map, List.length_map, hcount, ← h.length] at hle
  exact List.reduceOption_length_lt_iff.mp hle

/-- A turn of the second pass returns. -/
theorem fillcollidingStep_total {head : ℕ → Prop} {sizehash : ℕ} {done : List (Object × Object)} {e : Object × Object}
    (h : Chaining set (ishashkey tbl.array.length e.1 s).2 t.rawlen sizehash head t.entries done tbl)
    (hkey : IsShared e.1) (he : e ∈ t.entries) (hnew : ∀ e' ∈ done, e'.1 ≠ e.1)
    (hset : ∀ s, ∃ r, set e.2 s = some r)
    (hmain : ∀ k keyhash, placed (ishashkey tbl.array.length e.1 s).2 t.rawlen e.1 = .hash k keyhash →
      head (keyhash.toNat % sizehash))
    (hcount : (t.entries.filter fun e' => (placed (ishashkey tbl.array.length e.1 s).2 t.rawlen e'.1).isHash).length
      = sizehash) :
  ∃ r, fillcollidingStep set tbl s e = some r
  := by
  have hlength := h.array.length
  obtain ⟨hplace, -⟩ := ishashkey_spec tbl.array.length s hkey List.prefix_rfl
  rw [fillcollidingStep]
  generalize ishashkey tbl.array.length e.1 s = place at h hmain hcount hplace
  obtain ⟨place, s₁⟩ := place
  obtain ⟨r, hr⟩ := hset s₁
  cases place with
  | array j => exact ⟨_, rfl⟩
  | hash k keyhash =>
      have hplaced : placed s₁ t.rawlen e.1 = .hash k keyhash := by
        rw [← hlength]
        exact hplace.symm
      obtain ⟨m, hm⟩ := h.heads _ (hmain k keyhash hplaced)
      dsimp only
      rw [h.length, hm]
      dsimp only
      split_ifs with hk
      · exact ⟨_, rfl⟩
      · have hempty := h.exists_empty he (by dsimp only; rw [hplaced]; rfl) hcount (h.fresh hnew hplaced hm hk)
        cases hfind : tbl.hash.findIdx? Option.isNone with
        | none =>
            have hsome := List.findIdx?_eq_none_iff.mp hfind none hempty
            cases hsome
        | some j => exact ⟨_, Option.map_eq_some_iff.mpr ⟨r, hr, rfl⟩⟩

theorem fillarray_total (hnil : ∀ s, set .nil s = some (.nil, s)) (htotal : Total set t.entries) (turns i : ℕ)
    (tbl : Conf Val) (s : Strings) :
  ∃ r, fillarray set t.entries turns i tbl s = some r
  := by
  induction turns generalizing i tbl s with
  | zero => exact ⟨_, rfl⟩
  | succ turns ih =>
      have hvalue : ∃ r, set (lookup t.entries (.integer (Int64.ofNat i))) s = some r := by
        by_cases hne : lookup t.entries (.integer (Int64.ofNat i)) = .nil
        · rw [hne]
          exact ⟨_, hnil s⟩
        · exact htotal _ (Seri.mem_of_lookup hne) s
      obtain ⟨⟨x, s₁⟩, hx⟩ := hvalue
      rw [fillarray, setarray, hx]
      exact ih _ _ _

/-- `convtable` returns if the keys fit an `int` and the values can be copied. -/
theorem convert_total (hkeys : ∀ e ∈ t.entries, IsShared e.1) (hnil : ∀ s, set .nil s = some (.nil, s))
    (hset : Extends set) (htotal : Total set t.entries) (hsmall : t.entries.length < 2 ^ 31) (s : Strings) :
  ∃ r, convert set t s = some r
  := by
  have hcount : ∀ S, (t.entries.filter fun e => (placed S t.rawlen e.1).isHash).length
      = (t.entries.filter fun e => (placed [] t.rawlen e.1).isHash).length :=
    fun S => Option.some.inj ((countsize_eq S hkeys).symm.trans (countsize_eq [] hkeys))
  have hle : (t.entries.filter fun e => (placed [] t.rawlen e.1).isHash).length ≤ t.entries.length :=
    List.length_filter_le _ _
  rw [convert, countsize_eq [] hkeys]
  dsimp only
  generalize (t.entries.filter fun e => (placed [] t.rawlen e.1).isHash).length = sizehash at hcount hle
  rw [if_neg (by omega)]
  split_ifs with hzero
  · exact fillarray_total hnil htotal _ _ _ _
  · have hfirst : ∃ r, fillnocolliding set t.entries
        ⟨List.replicate t.rawlen .nil, List.replicate sizehash none⟩ s = some r := by
      refine fill_total ?_ List.prefix_rfl
      intro done e tbl' s' hdone hfill
      have he : e ∈ t.entries := hdone.subset (List.mem_append_right done List.mem_cons_self)
      have hspread :=
        spread_fill t.rawlen_lt hkeys hset ((List.prefix_append done [e]).trans hdone) hfill List.prefix_rfl
      exact fillnocollidingStep_total (htotal e he) (by rw [hspread.length]; omega)
    obtain ⟨⟨tbl₁, s₁⟩, htbl₁⟩ := hfirst
    rw [htbl₁]
    refine fill_total ?_ List.prefix_rfl
    intro done e tbl' s' hdone hfill
    have he : e ∈ t.entries := hdone.subset (List.mem_append_right done List.mem_cons_self)
    have hS := prefix_ishashkey tbl'.array.length e.1 s'
    have hgrow := (grows_fill (stepGrows_fillcollidingStep hset) hfill).strings
    have hspread := spread_fill t.rawlen_lt hkeys hset List.prefix_rfl htbl₁ (hgrow.trans hS)
    have hchaining := chaining_fill hkeys t.keys_nodup hset hspread ((List.prefix_append done [e]).trans hdone) hfill hS
    have hnew : ∀ e' ∈ done, e'.1 ≠ e.1 := fun e' he' => ne_of_prefix t.keys_nodup hdone he'
    exact fillcollidingStep_total hchaining (hkeys e he) he hnew (htotal e he) (hspread.filled e he) (hcount _)

end

end Sharedata

end Skynet
