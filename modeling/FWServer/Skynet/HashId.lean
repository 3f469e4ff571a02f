import FWServer.Kernel.LittleEndian
import FWServer.Kernel.Linked
import Mathlib.Algebra.Group.Nat.Defs
import Mathlib.Algebra.Group.Int.Defs

/-!
# The table of ids

`service-src/hashid.h`: the slots of a table are its nodes.  An id is put in the first free slot from its remainder by
the capacity on, and into the chain of its bucket, in which it is looked up.  A pointer to a node is given by the index
of the node.  Where the code would go out of the range of an array, fail an assertion or not end there is no result.
-/

namespace Skynet

/-- `struct hashid_node` -/
structure HashidNode where
  id : ℤ
  next : Option ℕ

/-- `struct hashid` -/
structure Hashid where
  hashmod : ℤ
  cap : ℤ
  count : ℤ
  id : List HashidNode
  hash : List (Option ℕ)

namespace Hashid

/-! ### The code -/

/-- The `while` of `hashid_init`, for so many turns at most. -/
def hashcapLoop (max : ℤ) : ℕ → ℤ → Option ℤ
  | 0, _ => none
  | fuel + 1, hashcap =>
      if hashcap < max then hashcapLoop max fuel (LittleEndian.toInt (hashcap * 2))
      else some hashcap

/-- `hashid_init`; there are 27 powers of two from 2^4 to 2^30. -/
def init (max : ℤ) : Option Hashid := do
  let hashcap ← hashcapLoop max 27 16
  pure {
    hashmod := hashcap - 1
    cap := max
    count := 0
    id := List.replicate max.toNat ⟨-1, none⟩
    hash := List.replicate hashcap.toNat none }

/-- An element of an array. -/
def access {α : Type} (xs : List α) (index : ℤ) : Option α :=
  if index < 0 then none else xs[index.toNat]?

/-- `id & hi->hashmod` -/
def bucket (hi : Hashid) (id : ℤ) : ℤ :=
  (BitVec.ofInt 32 id &&& BitVec.ofInt 32 hi.hashmod).toInt

/-- The `while` of `hashid_lookup`, for so many nodes at most. -/
def lookupLoop (hi : Hashid) (id : ℤ) : ℕ → Option ℕ → Option ℤ
  | _, none => some (-1)
  | 0, some _ => none
  | fuel + 1, some c => do
      let node ← hi.id[c]?
      if node.id = id then some c else lookupLoop hi id fuel node.next

/-- `hashid_lookup` -/
def lookup (hi : Hashid) (id : ℤ) : Option ℤ := do
  let c ← access hi.hash (hi.bucket id)
  lookupLoop hi id hi.id.length c

/-- A node is written. -/
def setNode (hi : Hashid) (c : ℕ) (node : HashidNode) : Hashid :=
  { hi with id := hi.id.set c node }

/-- The head of a bucket is written. -/
def setHead (hi : Hashid) (h : ℤ) (p : Option ℕ) : Hashid :=
  { hi with hash := hi.hash.set h.toNat p }

/-- What `hashid_remove` does from `_clear` on. -/
def clear (hi : Hashid) (c : ℕ) : Hashid × ℤ :=
  ({ hi.setNode c ⟨-1, none⟩ with count := hi.count - 1 }, c)

/-- The `while` of `hashid_remove`, for so many nodes at most. -/
def removeLoop (hi : Hashid) (id : ℤ) : ℕ → ℕ → Option (Hashid × ℤ)
  | 0, _ => none
  | fuel + 1, c => do
      let node ← hi.id[c]?
      match node.next with
      | none => some (hi, -1)
      | some temp =>
          let next ← hi.id[temp]?
          if next.id = id then some ((hi.setNode c ⟨node.id, next.next⟩).clear temp)
          else removeLoop hi id fuel temp

/-- `hashid_remove` -/
def remove (hi : Hashid) (id : ℤ) : Option (Hashid × ℤ) := do
  let h := hi.bucket id
  match ← access hi.hash h with
  | none => some (hi, -1)
  | some c =>
      let node ← hi.id[c]?
      if node.id = id then some ((hi.setHead h node.next).clear c)
      else removeLoop hi id hi.id.length c

/-- `(i+id) % hi->cap` -/
def probeIndex (hi : Hashid) (id i : ℤ) : ℤ :=
  (LittleEndian.toInt (i + id)).tmod hi.cap

/-- The `for` of `hashid_insert` for the last `n` values of `i`, from the value `i` on; whether a free node has been
found, and which. -/
def probe (hi : Hashid) (id : ℤ) : ℕ → ℤ → Option (Option ℕ)
  | 0, _ => some none
  | n + 1, i => do
      let index := hi.probeIndex id i
      let node ← access hi.id index
      if node.id = -1 then some (some index.toNat) else probe hi id n (i + 1)

/-- What `hashid_insert` does with the node it has found. -/
def put (hi : Hashid) (id : ℤ) (c : ℕ) : Option (Hashid × ℕ) := do
  let node ← hi.id[c]?
  -- the second assertion
  if node.next.isSome then none
  else
    let h := hi.bucket id
    let head ← access hi.hash h
    pure ({ (hi.setNode c ⟨id, head⟩).setHead h (some c) with count := hi.count + 1 }, c)

/-- `hashid_insert` -/
def insert (hi : Hashid) (id : ℤ) : Option (Hashid × ℕ) := do
  match ← hi.probe id hi.cap.toNat 0 with
  -- the first assertion
  | none => none
  | some c => hi.put id c

/-- `hashid_full` -/
def full (hi : Hashid) : Bool :=
  hi.count == hi.cap

/-! ### The number of buckets -/

/-- For up to 2^30 ids the number of buckets is found before it overflows. -/
theorem hashcapLoop_of_le (max : ℤ) (hmax : max ≤ 2 ^ 30) {fuel k : ℕ} (hk : 4 ≤ k) (hfuel : k + fuel = 30) :
  ∃ hashcap : ℤ, hashcapLoop max (fuel + 1) ((2 ^ k : ℕ) : ℤ) = some hashcap ∧ 16 ≤ hashcap ∧ hashcap ≤ 2 ^ 30
  := by
  induction fuel generalizing k with
  | zero =>
      obtain rfl : k = 30 := hfuel
      have hpow : ((2 ^ 30 : ℕ) : ℤ) = 2 ^ 30 := rfl
      use 2 ^ 30
      rw [hpow, hashcapLoop, if_neg (Int.not_lt.mpr hmax)]
      exact ⟨rfl, by decide, Int.le_refl _⟩
  | succ fuel ih =>
      have hlower : 2 ^ 4 ≤ 2 ^ k := Nat.pow_le_pow_right (by decide) hk
      have hupper : 2 ^ (k + 1) ≤ 2 ^ 30 := Nat.pow_le_pow_right (by decide) (by omega)
      have hdouble : ((2 ^ k : ℕ) : ℤ) * 2 = ((2 ^ (k + 1) : ℕ) : ℤ) := by
        rw [Nat.pow_succ, Int.natCast_mul]
        rfl
      rw [hashcapLoop]
      split
      · rw [hdouble, LittleEndian.toInt_of_lt (by omega)]
        apply ih <;> omega
      · use ((2 ^ k : ℕ) : ℤ), rfl
        rw [Nat.pow_succ] at hupper
        omega

/-- For more than that the number overflows to 0 and is doubled for ever. -/
theorem hashcapLoop_of_gt {max hashcap : ℤ} (hmax : 2 ^ 30 < max) (fuel : ℕ)
    (hcap : hashcap = 0 ∨ hashcap = -2 ^ 31 ∨ ∃ k ≤ 30, hashcap = ((2 ^ k : ℕ) : ℤ)) :
  hashcapLoop max fuel hashcap = none
  := by
  induction fuel generalizing hashcap with
  | zero => rfl
  | succ fuel ih =>
      have hle : hashcap < max := by
        rcases hcap with rfl | rfl | ⟨k, hk, rfl⟩
        · omega
        · omega
        · have hupper : 2 ^ k ≤ 2 ^ 30 := Nat.pow_le_pow_right (by decide) hk
          omega
      rw [hashcapLoop, if_pos hle]
      apply ih
      rcases hcap with rfl | rfl | ⟨k, hk, rfl⟩
      · exact .inl rfl
      · exact .inl rfl
      · right
        have hdouble : ((2 ^ k : ℕ) : ℤ) * 2 = ((2 ^ (k + 1) : ℕ) : ℤ) := by
          rw [Nat.pow_succ, Int.natCast_mul]
          rfl
        rw [hdouble]
        rcases Nat.eq_or_lt_of_le hk with rfl | hk
        · exact .inl rfl
        · right
          have hupper : 2 ^ (k + 1) ≤ 2 ^ 30 := Nat.pow_le_pow_right (by decide) hk
          use k + 1, hk
          apply LittleEndian.toInt_of_lt
          omega

/-! ### Nodes and chains -/

/-- The id in a slot, -1 for none. -/
def idOf (hi : Hashid) (s : ℕ) : ℤ :=
  (hi.id[s]?.map HashidNode.id).getD (-1)

/-- The slot that comes next in a chain. -/
def next (hi : Hashid) (s : ℕ) : Option ℕ :=
  hi.id[s]?.bind HashidNode.next

/-- The first slot of the chain of a bucket. -/
def root (hi : Hashid) (h : ℕ) : Option ℕ :=
  hi.hash[h]?.join

variable {hi : Hashid} {id : ℤ} {c s t : ℕ} {l l₁ l₂ : List ℕ} {p : Option ℕ}

theorem getElem?_id (hs : s < hi.id.length) :
  hi.id[s]? = some ⟨hi.idOf s, hi.next s⟩
  := by
  rw [idOf, next, List.getElem?_eq_getElem hs]
  rfl

theorem lt_of_idOf (hs : hi.idOf s ≠ -1) :
  s < hi.id.length
  := by
  by_contra hlt
  apply hs
  rw [idOf, List.getElem?_eq_none (Nat.le_of_not_lt hlt)]
  rfl

theorem access_of_lt {α : Type} {xs : List α} {index : ℤ} (h0 : 0 ≤ index) :
  access xs index = xs[index.toNat]?
  := if_neg (Int.not_lt.mpr h0)

theorem access_hash {h : ℤ} (h0 : 0 ≤ h) (hlt : h < hi.hash.length) :
  access hi.hash h = some (hi.root h.toNat)
  := by
  have hlt : h.toNat < hi.hash.length := by omega
  rw [access_of_lt h0, root, List.getElem?_eq_getElem hlt]
  rfl

/-- The bucket of an id is in the range of the buckets. -/
theorem bucket_mem (h0 : 0 ≤ hi.hashmod) (hlt : hi.hashmod < 2 ^ 31) (id : ℤ) :
  0 ≤ hi.bucket id ∧ hi.bucket id ≤ hi.hashmod
  := by
  have hmod : (BitVec.ofInt 32 hi.hashmod).toNat = hi.hashmod.toNat := by
    rw [BitVec.toNat_ofInt]
    omega
  have hle : (BitVec.ofInt 32 id &&& BitVec.ofInt 32 hi.hashmod).toNat ≤ hi.hashmod.toNat := by
    rw [BitVec.toNat_and, hmod]
    apply Nat.and_le_right
  rw [bucket, BitVec.toInt_eq_toNat_of_lt (by omega)]
  omega

/-! ### What is written -/

@[simp]
theorem setNode_next (hc : c < hi.id.length) (node : HashidNode) :
  (hi.setNode c node).next = Function.update hi.next c node.next
  := by
  funext s
  rcases eq_or_ne s c with rfl | hs
  · rw [Function.update_self, next, setNode, List.getElem?_set_self hc]
    rfl
  · rw [Function.update_of_ne hs, next, setNode, List.getElem?_set_ne hs.symm]
    rfl

@[simp]
theorem setNode_idOf (hc : c < hi.id.length) (node : HashidNode) :
  (hi.setNode c node).idOf = Function.update hi.idOf c node.id
  := by
  funext s
  rcases eq_or_ne s c with rfl | hs
  · rw [Function.update_self, idOf, setNode, List.getElem?_set_self hc]
    rfl
  · rw [Function.update_of_ne hs, idOf, setNode, List.getElem?_set_ne hs.symm]
    rfl

@[simp]
theorem length_setNode (c : ℕ) (node : HashidNode) :
  (hi.setNode c node).id.length = hi.id.length
  := List.length_set

@[simp]
theorem setHead_root (hi : Hashid) {h : ℤ} (h0 : 0 ≤ h) (hlt : h < hi.hash.length) (p : Option ℕ) :
  (hi.setHead h p).root = Function.update hi.root h.toNat p
  := by
  have hlt : h.toNat < hi.hash.length := by omega
  funext h'
  rcases eq_or_ne h' h.toNat with rfl | hne
  · rw [Function.update_self, root, setHead, List.getElem?_set_self hlt]
    rfl
  · rw [Function.update_of_ne hne, root, setHead, List.getElem?_set_ne hne.symm]
    rfl

@[simp]
theorem setHead_next (h : ℤ) (p : Option ℕ) :
  (hi.setHead h p).next = hi.next
  := rfl

@[simp]
theorem length_setHead (h : ℤ) (p : Option ℕ) :
  (hi.setHead h p).hash.length = hi.hash.length
  := List.length_set

/-! ### Walking a chain -/

/-- The walk through a chain finds the first slot with the id. -/
theorem lookupLoop_eq (id : ℤ) {fuel : ℕ} (h : Linked hi.next p l) (hlt : ∀ s ∈ l, s < hi.id.length)
    (hfuel : l.length ≤ fuel) :
  hi.lookupLoop id fuel p = some (((l.find? fun s => hi.idOf s = id).map Nat.cast).getD (-1))
  := by
  induction l generalizing fuel p with
  | nil =>
      rw [Linked.nil_iff.mp h, lookupLoop]
      rfl
  | cons c l ih =>
      obtain ⟨rfl, hl⟩ := h
      obtain ⟨fuel, rfl⟩ : ∃ n, fuel = n + 1 := Nat.exists_eq_succ_of_ne_zero (Nat.ne_zero_of_lt hfuel)
      rw [lookupLoop, getElem?_id (hlt c List.mem_cons_self), Option.bind_eq_bind, Option.bind_some, List.find?_cons]
      split
      · next heq =>
          rw [decide_eq_true heq]
          rfl
      · next hne =>
          rw [decide_eq_false hne]
          apply ih hl fun s hs => hlt s (List.mem_cons_of_mem c hs)
          apply Nat.le_of_succ_le_succ hfuel

/-- A walk that comes upon no slot with the id leaves the table as it is. -/
theorem removeLoop_of_forall_ne {fuel : ℕ} (h : Linked hi.next (some c) (c :: l))
    (hlt : ∀ s ∈ c :: l, s < hi.id.length)
    (hfuel : l.length < fuel) (hne : ∀ s ∈ l, hi.idOf s ≠ id) :
  hi.removeLoop id fuel c = some (hi, -1)
  := by
  induction l generalizing fuel c with
  | nil =>
      obtain ⟨fuel, rfl⟩ : ∃ n, fuel = n + 1 := Nat.exists_eq_succ_of_ne_zero (Nat.ne_zero_of_lt hfuel)
      rw [removeLoop, getElem?_id (hlt c List.mem_cons_self), Option.bind_eq_bind, Option.bind_some,
        Linked.nil_iff.mp h.2]
  | cons t l ih =>
      obtain ⟨fuel, rfl⟩ : ∃ n, fuel = n + 1 := Nat.exists_eq_succ_of_ne_zero (Nat.ne_zero_of_lt hfuel)
      have ht : t < hi.id.length := hlt t (List.mem_cons_of_mem c List.mem_cons_self)
      have hl := h.2
      rw [removeLoop, getElem?_id (hlt c List.mem_cons_self), Option.bind_eq_bind, Option.bind_some, hl.1]
      dsimp only
      rw [getElem?_id ht, Option.bind_some, if_neg (hne t List.mem_cons_self)]
      rw [hl.1] at hl
      apply ih hl fun s hs => hlt s (List.mem_cons_of_mem c hs)
      · apply Nat.lt_of_succ_lt_succ hfuel
      · intro s hs
        apply hne s (List.mem_cons_of_mem t hs)

/-- A walk that comes upon a slot with the id takes it out of the chain. -/
theorem removeLoop_of_eq {b : ℕ} {fuel : ℕ} (h : Linked hi.next (some c) (l₁ ++ b :: t :: l₂))
    (hlt : ∀ s ∈ l₁ ++ b :: t :: l₂, s < hi.id.length) (hfuel : l₁.length < fuel)
    (hne : ∀ s ∈ l₁ ++ [b], hi.idOf s ≠ id) (ht : hi.idOf t = id) :
  hi.removeLoop id fuel c = some ((hi.setNode b ⟨hi.idOf b, hi.next t⟩).clear t)
  := by
  induction l₁ generalizing fuel c with
  | nil =>
      obtain ⟨fuel, rfl⟩ : ∃ n, fuel = n + 1 := Nat.exists_eq_succ_of_ne_zero (Nat.ne_zero_of_lt hfuel)
      obtain ⟨hc, hnext, hl⟩ := h
      obtain rfl := Option.some.inj hc
      have htlt : t < hi.id.length := hlt t (List.mem_cons_of_mem c List.mem_cons_self)
      rw [removeLoop, getElem?_id (hlt c List.mem_cons_self), Option.bind_eq_bind, Option.bind_some, hnext]
      dsimp only
      rw [getElem?_id htlt, Option.bind_some, if_pos ht]
  | cons d l₁ ih =>
      obtain ⟨fuel, rfl⟩ : ∃ n, fuel = n + 1 := Nat.exists_eq_succ_of_ne_zero (Nat.ne_zero_of_lt hfuel)
      obtain ⟨hc, hl⟩ := h
      obtain rfl := Option.some.inj hc
      have hlt' : ∀ s ∈ l₁ ++ b :: t :: l₂, s < hi.id.length := fun s hs => hlt s (List.mem_cons_of_mem c hs)
      have hne' : ∀ s ∈ l₁ ++ [b], hi.idOf s ≠ id := fun s hs => hne s (List.mem_cons_of_mem c hs)
      obtain ⟨e, he⟩ : ∃ e, hi.next c = some e ∧ e ∈ l₁ ++ b :: t :: l₂ ∧ e ∈ l₁ ++ [b] := by
        cases l₁ with
        | nil => exact ⟨b, hl.1, List.mem_cons_self, List.mem_cons_self⟩
        | cons e l₁ => exact ⟨e, hl.1, List.mem_cons_self, List.mem_cons_self⟩
      rw [removeLoop, getElem?_id (hlt c List.mem_cons_self), Option.bind_eq_bind, Option.bind_some, he.1]
      dsimp only
      rw [getElem?_id (hlt' e he.2.1), Option.bind_some, if_neg (hne' e he.2.2)]
      rw [he.1] at hl
      apply ih hl hlt' (Nat.lt_of_succ_lt_succ hfuel) hne'

theorem remove_of_empty (hroot : access hi.hash (hi.bucket id) = some none) :
  hi.remove id = some (hi, -1)
  := by
  rw [remove, hroot]
  rfl

theorem remove_of_head (hroot : access hi.hash (hi.bucket id) = some (some c)) (hc : c < hi.id.length) :
  hi.remove id =
    if hi.idOf c = id then some ((hi.setHead (hi.bucket id) (hi.next c)).clear c)
    else hi.removeLoop id hi.id.length c
  := by
  rw [remove, hroot, Option.bind_eq_bind, Option.bind_some]
  dsimp only
  rw [getElem?_id hc]
  rfl

/-! ### Probing -/

/-- The index that the probe `i` would have without an overflow. -/
def residue (hi : Hashid) (id : ℤ) (i : ℕ) : ℕ :=
  (i + id.toNat) % hi.cap.toNat

/-- The sum of the probe `i` and the id does not overflow, or it does so to a multiple of the capacity. -/
def Fits (hi : Hashid) (id : ℤ) (i : ℕ) : Prop :=
  i + id < 2 ^ 31 ∨ i + id = 2 ^ 31 ∧ hi.cap ∣ 2 ^ 31

/-- The first `i` probes find their slots taken. -/
def Taken (hi : Hashid) (id : ℤ) (i : ℕ) : Prop :=
  ∀ j < i, hi.idOf (hi.residue id j) ≠ -1

theorem probeIndex_of_fits {i : ℕ} (h0 : 0 ≤ id) (hcap : 0 ≤ hi.cap) (h : hi.Fits id i) :
  hi.probeIndex id i = hi.residue id i
  := by
  obtain ⟨n, rfl⟩ := Int.eq_ofNat_of_zero_le h0
  obtain ⟨k, hk⟩ := Int.eq_ofNat_of_zero_le hcap
  rw [Fits, hk] at h
  rw [probeIndex, residue, hk, Int.toNat_natCast, Int.toNat_natCast, ← Int.natCast_add]
  rcases h with hlt | ⟨heq, hdvd⟩
  · rw [LittleEndian.toInt_of_lt (by omega), Int.ofNat_tmod]
  · have hsum : i + n = 2 ^ 31 := by omega
    have hoverflow : LittleEndian.toInt ((2 ^ 31 : ℕ) : ℤ) = -2 ^ 31 := rfl
    rw [hsum, hoverflow, Int.neg_tmod, Int.tmod_eq_zero_of_dvd hdvd, Nat.mod_eq_zero_of_dvd]
    · rfl
    · exact Int.natCast_dvd_natCast.mp hdvd

/-- The first probe that does not fit has a negative index. -/
theorem probeIndex_of_not_fits {i : ℕ} (hid : id < 2 ^ 31) (hi' : i < hi.cap) (hcap : hi.cap < 2 ^ 31)
    (hbefore : ∀ j < i, hi.Fits id j) (h : ¬ hi.Fits id i) :
  hi.probeIndex id i < 0
  := by
  rw [Fits, not_or, Int.not_lt] at h
  obtain ⟨hge, hne⟩ := h
  have hoverflow : LittleEndian.toInt (i + id) = -(2 ^ 32 - (i + id)) := by
    rw [LittleEndian.toInt, Int.bmod_def]
    omega
  have hdvd : ¬ hi.cap ∣ 2 ^ 32 - (i + id) := by
    intro hdvd
    rcases Int.lt_or_eq_of_le hge with hgt | heq
    · -- the probe before, whose sum is 2^31, fits
      rcases hbefore (2 ^ 31 - id).toNat (by omega) with hlt | ⟨-, hpow⟩
      · omega
      · have hrest : hi.cap ∣ i + id - 2 ^ 31 := by
          have hsum := Int.dvd_sub hpow hdvd
          rwa [show (2 : ℤ) ^ 31 - (2 ^ 32 - (i + id)) = i + id - 2 ^ 31 by omega] at hsum
        have hle := Int.le_of_dvd (by omega) hrest
        omega
    · apply hne
      use heq.symm
      rwa [show (2 : ℤ) ^ 32 - (i + id) = 2 ^ 31 by omega] at hdvd
  rw [probeIndex, hoverflow, Int.neg_tmod, Int.tmod_eq_emod_of_nonneg (by omega)]
  have hnonneg : 0 ≤ (2 ^ 32 - (i + id)) % hi.cap := Int.emod_nonneg _ (by omega)
  have hne : (2 ^ 32 - (i + id)) % hi.cap ≠ 0 := fun hzero => hdvd (Int.dvd_of_emod_eq_zero hzero)
  omega

theorem residue_lt (hcap : 0 < hi.cap) (id : ℤ) (i : ℕ) :
  hi.residue id i < hi.cap.toNat
  := Nat.mod_lt _ (Int.lt_toNat.mpr hcap)

theorem Taken.succ {i : ℕ} (h : hi.Taken id i) (hi' : hi.idOf (hi.residue id i) ≠ -1) :
  hi.Taken id (i + 1)
  := by
  intro j hj
  rcases Nat.lt_succ_iff_lt_or_eq.mp hj with hj | rfl
  · apply h j hj
  · apply hi'

/-- Probing ends at the first probe that does not fit or finds a free slot. -/
theorem probe_cases (hlength : (hi.id.length : ℤ) = hi.cap) (hcap : hi.cap < 2 ^ 31) (h0 : 0 ≤ id) (hid : id < 2 ^ 31)
    {n i : ℕ} (hn : i + n = hi.cap.toNat) (htaken : hi.Taken id i) (hfits : ∀ j < i, hi.Fits id j) :
  (∃ j : ℕ, j < hi.cap ∧ hi.Taken id j ∧ ¬ hi.Fits id j ∧ hi.probe id n i = none) ∨
    (∃ j : ℕ, j < hi.cap ∧ hi.Taken id j ∧ (∀ k ≤ j, hi.Fits id k) ∧ hi.idOf (hi.residue id j) = -1 ∧
      hi.probe id n i = some (some (hi.residue id j))) ∨
    hi.Taken id hi.cap.toNat
  := by
  induction n generalizing i with
  | zero =>
      right; right
      rwa [← hn]
  | succ n ih =>
      have hlt : (i : ℤ) < hi.cap := by omega
      by_cases hfit : hi.Fits id i
      · have hresidue : hi.residue id i < hi.cap.toNat := residue_lt (by omega) id i
        have hnode : hi.id[hi.residue id i]? = some ⟨hi.idOf (hi.residue id i), hi.next (hi.residue id i)⟩ :=
          getElem?_id (by omega)
        have hfits' : ∀ j ≤ i, hi.Fits id j := by
          intro j hj
          rcases Nat.lt_or_eq_of_le hj with hj | rfl
          · apply hfits j hj
          · apply hfit
        rw [probe, probeIndex_of_fits h0 (by omega) hfit, access_of_lt (Int.natCast_nonneg _), Int.toNat_natCast,
          hnode, Option.bind_eq_bind, Option.bind_some]
        split
        · next hfree =>
            right; left
            use i, hlt, htaken, hfits', hfree
        · next hused =>
            have hrest := ih (i := i + 1) (by omega) (htaken.succ hused) fun j hj => hfits' j (Nat.le_of_lt_succ hj)
            rwa [Int.natCast_add, Int.natCast_one] at hrest
      · left
        use i, hlt, htaken, hfit
        rw [probe, access, if_pos (probeIndex_of_not_fits hid hlt hcap hfits hfit)]
        rfl

theorem put_of_free {head : Option ℕ} (hs : s < hi.id.length) (hnext : hi.next s = none)
    (hroot : access hi.hash (hi.bucket id) = some head) :
  hi.put id s =
    some ({ (hi.setNode s ⟨id, head⟩).setHead (hi.bucket id) (some s) with count := hi.count + 1 }, s)
  := by
  rw [put, getElem?_id hs, hnext, Option.bind_eq_bind, Option.bind_some]
  dsimp only
  rw [Option.isSome_none, if_neg Bool.false_ne_true, hroot]
  rfl

end Hashid

end Skynet
