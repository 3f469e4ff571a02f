import Mathlib.Data.List.Perm.Basic
import Mathlib.Data.List.ReduceOption

/-!
# Chained slots

Things are kept in slots, some of which may be empty.  Each thing has a slot where it belongs, its home, and may point
to another slot.  A slot that is the home of something is a head: nothing points to it.  The things that belong to one
head are then found by following the pointers from there.
-/

universe u

namespace Chains

variable {ν : Type u} {slots : List (Option ν)} {next : ν → Option ℕ} {home : ν → ℕ} {i j p q : ℕ} {l : List ℕ}
  {n : ν}

/-- The slots that come after a slot, to the end. -/
inductive Chain (slots : List (Option ν)) (next : ν → Option ℕ) : ℕ → List ℕ → Prop
  | last {i : ℕ} {n : ν} (h : slots[i]? = some (some n)) (hn : next n = none) : Chain slots next i []
  | link {i j : ℕ} {n : ν} {l : List ℕ} (h : slots[i]? = some (some n)) (hn : next n = some j)
      (hl : Chain slots next j l) : Chain slots next i (j :: l)

/-- Where a thing is that passes a test, among those from a slot on, of which so many are looked at; `none` if an empty
slot is looked at, or if there are more. -/
def find (slots : List (Option ν)) (next : ν → Option ℕ) (test : ν → Bool) : ℕ → ℕ → Option (Option ℕ)
  | 0, _ => none
  | fuel + 1, i =>
      match slots[i]? with
      | some (some n) =>
          if test n then some (some i)
          else
            match next n with
            | none => some none
            | some j => find slots next test fuel j
      | _ => none

namespace Chain

/-- No slot of a chain is empty. -/
theorem filled (h : Chain slots next i l) (hq : q ∈ i :: l) :
  ∃ n, slots[q]? = some (some n)
  := by
  induction h with
  | last h hn =>
      rw [List.mem_singleton.mp hq]
      exact ⟨_, h⟩
  | link h hn hl ih =>
      rcases List.mem_cons.mp hq with rfl | hq
      · exact ⟨_, h⟩
      · exact ih hq

theorem unique {l' : List ℕ} (h : Chain slots next i l) (h' : Chain slots next i l') :
  l = l'
  := by
  induction h generalizing l' with
  | last h hn =>
      cases h' with
      | last h' hn' => rfl
      | link h' hn' hl' =>
          obtain rfl := Option.some.inj (Option.some.inj (h.symm.trans h'))
          cases hn.symm.trans hn'
  | link h hn hl ih =>
      cases h' with
      | last h' hn' =>
          obtain rfl := Option.some.inj (Option.some.inj (h.symm.trans h'))
          cases hn.symm.trans hn'
      | link h' hn' hl' =>
          obtain rfl := Option.some.inj (Option.some.inj (h.symm.trans h'))
          obtain rfl := Option.some.inj (hn.symm.trans hn')
          rw [ih hl']

/-- A slot that is not in a chain may change. -/
theorem set_of_notMem (h : Chain slots next i l) (hq : q ∉ i :: l) (x : Option ν) :
  Chain (slots.set q x) next i l
  := by
  induction h with
  | last h hn =>
      rw [List.mem_singleton] at hq
      exact .last (by rw [List.getElem?_set_ne hq]; exact h) hn
  | link h hn hl ih =>
      rw [List.mem_cons, not_or] at hq
      exact .link (by rw [List.getElem?_set_ne hq.1]; exact h) hn (ih hq.2)

/-- Nothing passes the test. -/
theorem find_none {test : ν → Bool} {fuel : ℕ} (h : Chain slots next i l) (hlen : l.length < fuel)
    (hnone : ∀ q ∈ i :: l, ∀ n, slots[q]? = some (some n) → test n = false) :
  find slots next test fuel i = some none
  := by
  induction h generalizing fuel with
  | last h hn =>
      obtain ⟨fuel, rfl⟩ : ∃ k, fuel = k + 1 := ⟨fuel - 1, by omega⟩
      rw [find, h]
      dsimp only
      rw [if_neg (by rw [hnone _ List.mem_cons_self _ h]; exact Bool.false_ne_true), hn]
  | link h hn hl ih =>
      obtain ⟨fuel, rfl⟩ : ∃ k, fuel = k + 1 := ⟨fuel - 1, by omega⟩
      rw [find, h]
      dsimp only
      rw [if_neg (by rw [hnone _ List.mem_cons_self _ h]; exact Bool.false_ne_true), hn]
      rw [List.length_cons] at hlen
      exact ih (by omega) fun q hq => hnone q (List.mem_cons_of_mem _ hq)

/-- One thing passes the test. -/
theorem find_some {test : ν → Bool} {fuel : ℕ} (h : Chain slots next i l) (hlen : l.length < fuel) (hj : j ∈ i :: l)
    (htest : ∀ q n, slots[q]? = some (some n) → (test n = true ↔ q = j)) :
  find slots next test fuel i = some (some j)
  := by
  induction h generalizing fuel with
  | @last i n h hn =>
      obtain ⟨fuel, rfl⟩ : ∃ k, fuel = k + 1 := ⟨fuel - 1, by omega⟩
      rw [List.mem_singleton] at hj
      rw [find, h]
      dsimp only
      rw [if_pos ((htest i n h).mpr hj.symm), hj]
  | @link i i' n l h hn hl ih =>
      obtain ⟨fuel, rfl⟩ : ∃ k, fuel = k + 1 := ⟨fuel - 1, by omega⟩
      rw [List.length_cons] at hlen
      rw [find, h]
      dsimp only
      rcases eq_or_ne i j with rfl | hne
      · rw [if_pos ((htest i n h).mpr rfl)]
      · rw [if_neg fun ht => hne ((htest i n h).mp ht), hn]
        exact ih (by omega) (List.mem_of_ne_of_mem hne.symm hj)

end Chain

/-! ### Slots and what is in them -/

/-- Something is put into an empty slot. -/
theorem reduceOption_set_none (h : slots[j]? = some none) (n : ν) :
  (slots.set j (some n)).reduceOption.Perm (n :: slots.reduceOption)
  := by
  induction slots generalizing j with
  | nil => cases h
  | cons x slots ih =>
      cases j with
      | zero =>
          obtain rfl : x = none := by simpa using h
          exact .refl _
      | succ j =>
          have hset := ih (j := j) (by simpa using h)
          cases x with
          | none => exact hset
          | some m => exact (hset.cons m).trans (.swap n m _)

/-- Something is replaced. -/
theorem map_reduceOption_set {β : Type*} {f : ν → β} {m m' : ν} (h : slots[p]? = some (some m)) (hf : f m' = f m) :
  (slots.set p (some m')).reduceOption.map f = slots.reduceOption.map f
  := by
  induction slots generalizing p with
  | nil => cases h
  | cons x slots ih =>
      cases p with
      | zero =>
          obtain rfl : x = some m := by simpa using h
          rw [List.set_cons_zero, List.reduceOption_cons_of_some, List.reduceOption_cons_of_some, List.map_cons,
            List.map_cons, hf]
      | succ p =>
          have hset := ih (p := p) (by simpa using h)
          cases x with
          | none => exact hset
          | some k => exact congrArg (f k :: ·) hset

theorem length_reduceOption_set {m m' : ν} (h : slots[p]? = some (some m)) :
  (slots.set p (some m')).reduceOption.length = slots.reduceOption.length
  := by
  have hmap : (slots.set p (some m')).reduceOption.map (fun _ => ()) = slots.reduceOption.map fun _ => () :=
    map_reduceOption_set h rfl
  have hlength := congrArg List.length hmap
  rwa [List.length_map, List.length_map] at hlength

/-- When no slot is empty, there is a list of what is in them. -/
theorem exists_eq_map_some (h : ∀ x ∈ slots, ∃ n, x = some n) :
  ∃ ns : List ν, slots = ns.map some
  := by
  induction slots with
  | nil => exact ⟨[], rfl⟩
  | cons x slots ih =>
      obtain ⟨n, rfl⟩ := h x List.mem_cons_self
      obtain ⟨ns, hns⟩ := ih fun y hy => h y (List.mem_cons_of_mem _ hy)
      exact ⟨n :: ns, by rw [hns, List.map_cons]⟩

theorem reduceOption_map_some (ns : List ν) :
  (ns.map some).reduceOption = ns
  := by
  induction ns with
  | nil => rfl
  | cons n ns ih => rw [List.map_cons, List.reduceOption_cons_of_some, ih]

theorem mem_reduceOption :
  n ∈ slots.reduceOption ↔ ∃ i : ℕ, slots[i]? = some (some n)
  := List.reduceOption_mem_iff.trans List.mem_iff_getElem?

/-- What is in different slots differs. -/
theorem nodup_map_reduceOption_iff {β : Type*} {f : ν → β} :
  (slots.reduceOption.map f).Nodup
    ↔ ∀ (i j : ℕ) n m, slots[i]? = some (some n) → slots[j]? = some (some m) → f n = f m → i = j
  := by
  induction slots with
  | nil => exact iff_of_true List.nodup_nil fun i j n m h => by cases h
  | cons x slots ih =>
      have htail : (∀ (i j : ℕ) n m, (x :: slots)[i]? = some (some n) → (x :: slots)[j]? = some (some m) → f n = f m →
          i = j) → (slots.reduceOption.map f).Nodup :=
        fun h => ih.mpr fun i j n m hi hj hf => Nat.succ.inj (h (i + 1) (j + 1) n m hi hj hf)
      cases x with
      | none =>
          refine ⟨fun h i j n m hi hj hf => ?_, htail⟩
          cases i with
          | zero => cases hi
          | succ i =>
              cases j with
              | zero => cases hj
              | succ j => exact congrArg Nat.succ (ih.mp h i j n m hi hj hf)
      | some k =>
          rw [List.reduceOption_cons_of_some, List.map_cons, List.nodup_cons]
          constructor
          · rintro ⟨hk, h⟩ i j n m hi hj hf
            have hhead : ∀ (i : ℕ) n, slots[i]? = some (some n) → f n ≠ f k := by
              intro i n hi heq
              exact hk (heq ▸ List.mem_map_of_mem (mem_reduceOption.mpr ⟨i, hi⟩))
            cases i with
            | zero =>
                obtain rfl : k = n := Option.some.inj (Option.some.inj hi)
                cases j with
                | zero => rfl
                | succ j => exact absurd hf.symm (hhead j m hj)
            | succ i =>
                cases j with
                | zero =>
                    obtain rfl : k = m := Option.some.inj (Option.some.inj hj)
                    exact absurd hf (hhead i n hi)
                | succ j => exact congrArg Nat.succ (ih.mp h i j n m hi hj hf)
          · intro h
            refine ⟨?_, htail h⟩
            intro hk
            obtain ⟨n, hn, hf⟩ := List.mem_map.mp hk
            obtain ⟨i, hi⟩ := mem_reduceOption.mp hn
            cases h (i + 1) 0 n k hi rfl hf

/-! ### Homes -/

/-- What is in the slots can be reached from where it belongs, which is a head; nothing points to a head. -/
structure Chained (slots : List (Option ν)) (next : ν → Option ℕ) (home : ν → ℕ) (head : ℕ → Prop) : Prop where
  chain : ∀ i n, slots[i]? = some (some n) →
    ∃ l, Chain slots next i l ∧ (∀ q ∈ l, ¬ head q) ∧ l.length < slots.reduceOption.length
  home : ∀ i n, slots[i]? = some (some n) → head (home n) ∧ ∃ l, Chain slots next (home n) l ∧ i ∈ home n :: l

namespace Chained

variable {head : ℕ → Prop}

/-- Everything is at home. -/
theorem of_home (hhead : ∀ i n, slots[i]? = some (some n) → head i)
    (hhome : ∀ i n, slots[i]? = some (some n) → home n = i ∧ next n = none) :
  Chained slots next home head where
  chain := by
    intro i n h
    have hmem : n ∈ slots.reduceOption := List.reduceOption_mem_iff.mpr (List.mem_of_getElem? h)
    exact ⟨[], .last h (hhome i n h).2, fun q hq => absurd hq List.not_mem_nil, List.length_pos_of_mem hmem⟩
  home := by
    intro i n h
    obtain ⟨hi, hn⟩ := hhome i n h
    rw [hi]
    exact ⟨hhead i n h, [], .last h hn, List.mem_cons_self⟩

theorem exists_chain (h : Chained slots next home head) (hi : slots[i]? = some (some n)) :
  ∃ l, Chain slots next (home n) l ∧ (∀ q ∈ l, ¬ head q) ∧ l.length < slots.reduceOption.length ∧ i ∈ home n :: l
  := by
  obtain ⟨-, l, hl, hmem⟩ := h.home i n hi
  obtain ⟨m, hm⟩ := hl.filled List.mem_cons_self
  obtain ⟨l', hl', havoid, hlen⟩ := h.chain (home n) m hm
  obtain rfl := hl.unique hl'
  exact ⟨l, hl, havoid, hlen, hmem⟩

/-- What passes a test is found from where it belongs. -/
theorem find_home {test : ν → Bool} (h : Chained slots next home head) (hj : slots[j]? = some (some n))
    (htest : ∀ q m, slots[q]? = some (some m) → (test m = true ↔ q = j)) :
  find slots next test slots.length (home n) = some (some j)
  := by
  obtain ⟨l, hl, -, hlen, hmem⟩ := h.exists_chain hj
  exact hl.find_some (Nat.lt_of_lt_of_le hlen (List.reduceOption_length_le slots)) hmem htest

/-- If nothing passes a test, nothing is found, from anywhere. -/
theorem find_none {test : ν → Bool} (h : Chained slots next home head) (hi : slots[i]? = some (some n))
    (htest : ∀ (q : ℕ) m, slots[q]? = some (some m) → test m = false) :
  find slots next test slots.length i = some none
  := by
  obtain ⟨l, hl, -, hlen⟩ := h.chain i n hi
  exact hl.find_none (Nat.lt_of_lt_of_le hlen (List.reduceOption_length_le slots)) fun q _ => htest q

section

variable {m m' : ν} (hp : slots[p]? = some (some m)) (hhead : head p) (hj : slots[j]? = some none)
  (hnext' : next m' = some j) (hnext : next n = next m)
include hp hhead hj hnext' hnext

/-- The chain from a head gets one more slot, after its first. -/
theorem chain_insert (hl : Chain slots next i l) (havoid : ∀ q ∈ l, ¬ head q) :
  Chain ((slots.set p (some m')).set j (some n)) next i (if i = p then j :: l else l)
    ∧ (i = p → Chain ((slots.set p (some m')).set j (some n)) next j l)
  := by
  have hpj : p ≠ j := by
    rintro rfl
    rw [hp] at hj
    cases hj
  have hset : ∀ {i l}, Chain slots next i l → p ∉ i :: l →
      Chain ((slots.set p (some m')).set j (some n)) next i l := by
    intro i l hl hnot
    have hnotj : j ∉ i :: l := by
      intro hmem
      obtain ⟨k, hk⟩ := hl.filled hmem
      rw [hj] at hk
      cases hk
    exact (hl.set_of_notMem hnot _).set_of_notMem hnotj _
  have hnotl : p ∉ l := fun hmem => havoid p hmem hhead
  have hslotp : ((slots.set p (some m')).set j (some n))[p]? = some (some m') := by
    rw [List.getElem?_set_ne hpj.symm, List.getElem?_set_self (List.getElem?_eq_some_iff.mp hp).1]
  have hslotj : ((slots.set p (some m')).set j (some n))[j]? = some (some n) :=
    List.getElem?_set_self (by rw [List.length_set]; exact (List.getElem?_eq_some_iff.mp hj).1)
  rcases eq_or_ne i p with rfl | hne
  · have hnew : Chain ((slots.set i (some m')).set j (some n)) next j l := by
      cases hl with
      | last hi hn =>
          obtain rfl := Option.some.inj (Option.some.inj (hp.symm.trans hi))
          exact .last hslotj (hnext.trans hn)
      | link hi hn hl =>
          obtain rfl := Option.some.inj (Option.some.inj (hp.symm.trans hi))
          exact .link hslotj (hnext.trans hn) (hset hl hnotl)
    rw [if_pos rfl]
    exact ⟨.link hslotp hnext' hnew, fun _ => hnew⟩
  · rw [if_neg hne]
    refine ⟨hset hl ?_, fun heq => absurd heq hne⟩
    rw [List.mem_cons, not_or]
    exact ⟨hne.symm, hnotl⟩

/-- Something that belongs to a head is put into an empty slot, after the head. -/
theorem insert (h : Chained slots next home head) (hjhead : ¬ head j) (hhome' : home m' = home m) (hhome : home n = p) :
  Chained ((slots.set p (some m')).set j (some n)) next home head
  := by
  have hpj : p ≠ j := by
    rintro rfl
    rw [hp] at hj
    cases hj
  have hcount : ((slots.set p (some m')).set j (some n)).reduceOption.length = slots.reduceOption.length + 1 := by
    rw [(reduceOption_set_none (by rw [List.getElem?_set_ne hpj]; exact hj) n).length_eq, List.length_cons,
      length_reduceOption_set hp]
  -- what is in a slot now, and what was there before
  have hcases : ∀ i k, ((slots.set p (some m')).set j (some n))[i]? = some (some k) →
      i = j ∧ k = n ∨ i = p ∧ k = m' ∨ slots[i]? = some (some k) := by
    intro i k hi
    rcases eq_or_ne i j with rfl | hij
    · rw [List.getElem?_set_self (by rw [List.length_set]; exact (List.getElem?_eq_some_iff.mp hj).1)] at hi
      exact Or.inl ⟨rfl, (Option.some.inj (Option.some.inj hi)).symm⟩
    · rw [List.getElem?_set_ne hij.symm] at hi
      rcases eq_or_ne i p with rfl | hip
      · rw [List.getElem?_set_self (List.getElem?_eq_some_iff.mp hp).1] at hi
        exact Or.inr (Or.inl ⟨rfl, (Option.some.inj (Option.some.inj hi)).symm⟩)
      · rw [List.getElem?_set_ne hip.symm] at hi
        exact Or.inr (Or.inr hi)
  have hchain : ∀ i k, slots[i]? = some (some k) →
      ∃ l, Chain ((slots.set p (some m')).set j (some n)) next i l ∧ (∀ q ∈ l, ¬ head q)
        ∧ l.length < slots.reduceOption.length + 1 := by
    intro i k hi
    obtain ⟨l, hl, havoid, hlen⟩ := h.chain i k hi
    refine ⟨_, (chain_insert hp hhead hj hnext' hnext hl havoid).1, ?_, ?_⟩
    · intro q hq
      split_ifs at hq
      · rcases List.mem_cons.mp hq with rfl | hq
        · exact hjhead
        · exact havoid q hq
      · exact havoid q hq
    · split_ifs
      · rw [List.length_cons]
        omega
      · omega
  have hhomes : ∀ i k, slots[i]? = some (some k) →
      head (home k) ∧ ∃ l, Chain ((slots.set p (some m')).set j (some n)) next (home k) l ∧ i ∈ home k :: l := by
    intro i k hi
    obtain ⟨l, hl, havoid, -, hmem⟩ := h.exists_chain hi
    refine ⟨(h.home i k hi).1, _, (chain_insert hp hhead hj hnext' hnext hl havoid).1, ?_⟩
    split_ifs
    · exact List.mem_cons.mpr ((List.mem_cons.mp hmem).imp_right (List.mem_cons_of_mem j))
    · exact hmem
  obtain ⟨l, hl, havoid, hlen⟩ := h.chain p m hp
  obtain ⟨hlp, hlj⟩ := chain_insert hp hhead hj hnext' hnext hl havoid
  rw [if_pos rfl] at hlp
  constructor
  · intro i k hi
    rw [hcount]
    rcases hcases i k hi with ⟨rfl, rfl⟩ | ⟨rfl, rfl⟩ | hi
    · exact ⟨l, hlj rfl, havoid, by omega⟩
    · exact hchain i m hp
    · exact hchain i k hi
  · intro i k hi
    rcases hcases i k hi with ⟨rfl, rfl⟩ | ⟨rfl, rfl⟩ | hi
    · rw [hhome]
      exact ⟨hhead, _, hlp, List.mem_cons_of_mem p List.mem_cons_self⟩
    · rw [hhome']
      exact hhomes i m hp
    · exact hhomes i k hi

end

end Chained

end Chains
