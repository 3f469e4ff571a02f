import FWServer.Kernel.Residues
import Mathlib.Algebra.Group.Nat.Defs

/-!
# The table of handles

`skynet-src/skynet_handle.c`: the table in which a service is found by its handle, and the names of handles.
A service is in the slot given by the low bits of its handle; when every slot is taken the table is doubled,
and its services are distributed anew, by the handles their contexts have then.

A context is a number; the field `handle` of the contexts is the parameter `handleOf`.  The locks, and the
counting of references, are left to those who call these functions.
-/

namespace Skynet

/-- `HANDLE_MASK` -/
def HANDLE_MASK : ℕ := 0xffffff

/-- `HANDLE_REMOTE_SHIFT` -/
def HANDLE_REMOTE_SHIFT : ℕ := 24

/-- `struct handle_name` -/
structure HandleName where
  name : List UInt8
  handle : ℕ
  deriving DecidableEq, Inhabited

/-- `struct handle_storage`; the table has `2 ^ slotBits` slots, and of the array `name` the first `nameCount`
entries are in use. -/
structure HandleStorage where
  harbor : ℕ
  handleIndex : ℕ
  slotBits : ℕ
  slot : ℕ → Option ℕ
  nameCap : ℕ
  nameCount : ℕ
  name : ℕ → HandleName
  slotBits_le : slotBits ≤ 24
  harbor_dvd : 2 ^ 24 ∣ harbor

namespace HandleStorage

/-- `DEFAULT_SLOT_SIZE`, as a power of 2 -/
def DEFAULT_SLOT_BITS : ℕ := 2

/-- `MAX_SLOT_SIZE` -/
def MAX_SLOT_SIZE : ℕ := 0x40000000

/-- `slot_size` -/
def slotSize (s : HandleStorage) : ℕ :=
  2 ^ s.slotBits

/-- The slot of a handle. -/
def hash (s : HandleStorage) (handle : ℕ) : ℕ :=
  handle &&& (s.slotSize - 1)

/-- `skynet_handle_init` -/
def init (harbor : ℕ) : HandleStorage where
  harbor := (harbor &&& 0xff) <<< HANDLE_REMOTE_SHIFT
  handleIndex := 1
  slotBits := DEFAULT_SLOT_BITS
  slot _ := none
  nameCap := 2
  nameCount := 0
  name _ := default
  slotBits_le := by decide
  harbor_dvd := ⟨harbor &&& 0xff, by rw [Nat.shiftLeft_eq, Nat.mul_comm]; rfl⟩

/-! ### Registering, retiring and finding services -/

/-- The assertions that may fail when a service is registered. -/
inductive Abort where
  /-- `assert((s->slot_size*2 - 1) <= HANDLE_MASK)` -/
  | full
  /-- `assert(new_slot[hash] == NULL)` -/
  | collided
  deriving DecidableEq

/-- The first handle, from `handle_index` on, whose slot is free. -/
def scan (s : HandleStorage) : Option ℕ :=
  ((List.range s.slotSize).map fun i => (i + s.handleIndex) &&& HANDLE_MASK).find? fun handle =>
    s.slot (s.hash handle) = none

/-- Puts the service of the slot `i` in the table of twice the size.  It is called when every slot is
taken. -/
def rehashOne (s : HandleStorage) (handleOf : ℕ → ℕ) (newSlot : ℕ → Option ℕ) (i : ℕ) :
    Except Abort (ℕ → Option ℕ) :=
  match s.slot i with
  | none => .ok newSlot
  | some ctx =>
      let hash := handleOf ctx &&& (s.slotSize * 2 - 1)
      if newSlot hash = none then .ok (Function.update newSlot hash (some ctx)) else .error .collided

/-- The slots of the table of twice the size. -/
def rehash (s : HandleStorage) (handleOf : ℕ → ℕ) : Except Abort (ℕ → Option ℕ) :=
  (List.range s.slotSize).foldlM (s.rehashOne handleOf) fun _ => none

theorem slotBits_lt (s : HandleStorage) (h : s.slotSize * 2 - 1 ≤ HANDLE_MASK) :
  s.slotBits < 24
  := by
  apply Nat.lt_of_not_le
  intro hle
  have hpow : 2 ^ 24 ≤ s.slotSize := Nat.pow_le_pow_right Nat.two_pos hle
  unfold HANDLE_MASK at h
  omega

/-- `skynet_handle_register`: the handle of the service, and the table. -/
def register (s : HandleStorage) (handleOf : ℕ → ℕ) (ctx : ℕ) : Except Abort (ℕ × HandleStorage) :=
  match s.scan with
  | some handle =>
      .ok (handle ||| s.harbor,
        { s with slot := Function.update s.slot (s.hash handle) (some ctx), handleIndex := handle + 1 })
  | none =>
      if h : s.slotSize * 2 - 1 ≤ HANDLE_MASK then
        match s.rehash handleOf with
        | .error e => .error e
        | .ok newSlot =>
            register { s with slot := newSlot, slotBits := s.slotBits + 1, slotBits_le := s.slotBits_lt h }
              handleOf ctx
      else .error .full
termination_by 24 - s.slotBits
decreasing_by
  have := s.slotBits_lt h
  exact Nat.sub_lt_sub_left this (Nat.lt_succ_self _)

/-- The entries of the array of names that are kept when `handle` is retired: the loop that moves them to the
front, over the array and the number kept so far. -/
def dropName (handle : ℕ) (kept : (ℕ → HandleName) × ℕ) (i : ℕ) : (ℕ → HandleName) × ℕ :=
  let (name, j) := kept
  if (name i).handle = handle then kept
  else if i ≠ j then (Function.update name j (name i), j + 1)
  else (name, j + 1)

/-- `skynet_handle_retire`: the context found, which the caller releases, and the table. -/
def retire (s : HandleStorage) (handleOf : ℕ → ℕ) (handle : ℕ) : Option ℕ × HandleStorage :=
  let hash := s.hash handle
  match s.slot hash with
  | none => (none, s)
  | some ctx =>
      if handleOf ctx = handle then
        let (name, j) := (List.range s.nameCount).foldl (dropName handle) (s.name, 0)
        (some ctx, { s with slot := Function.update s.slot hash none, name := name, nameCount := j })
      else (none, s)

/-- `skynet_handle_grab` -/
def grab (s : HandleStorage) (handleOf : ℕ → ℕ) (handle : ℕ) : Option ℕ :=
  match s.slot (s.hash handle) with
  | none => none
  | some ctx => if handleOf ctx = handle then some ctx else none

/-! ### What the functions do -/

theorem slotSize_pos (s : HandleStorage) :
  0 < s.slotSize
  := Nat.two_pow_pos _

theorem hash_eq_mod (s : HandleStorage) (handle : ℕ) :
  s.hash handle = handle % s.slotSize
  := Nat.and_two_pow_sub_one_eq_mod _ _

theorem slotSize_dvd (s : HandleStorage) :
  s.slotSize ∣ 2 ^ 24
  := Nat.pow_dvd_pow 2 s.slotBits_le

/-- The number of the node does not matter for the slot. -/
theorem hash_or_harbor (s : HandleStorage) (handle : ℕ) :
  s.hash (handle ||| s.harbor) = s.hash handle
  := by
  have hharbor : s.harbor % s.slotSize = 0 :=
    Nat.mod_eq_zero_of_dvd (Nat.dvd_trans s.slotSize_dvd s.harbor_dvd)
  rw [hash_eq_mod, hash_eq_mod]
  unfold slotSize at hharbor ⊢
  rw [Nat.or_mod_two_pow, hharbor, Nat.or_zero]

theorem and_handle_mask (n : ℕ) :
  n &&& HANDLE_MASK = n % 2 ^ 24
  := Nat.and_two_pow_sub_one_eq_mod n 24

/-- The scan finds a free slot. -/
theorem scan_some {s : HandleStorage} {handle : ℕ} (h : s.scan = some handle) :
  s.slot (s.hash handle) = none ∧ handle < 2 ^ 24
  := by
  unfold scan at h
  have hfree := List.find?_some h
  refine ⟨of_decide_eq_true hfree, ?_⟩
  obtain ⟨i, -, rfl⟩ := List.mem_map.mp (List.mem_of_find?_eq_some h)
  rw [and_handle_mask]
  exact Nat.mod_lt _ (Nat.two_pow_pos 24)

/-- The scan comes to every slot. -/
theorem scan_none {s : HandleStorage} (h : s.scan = none) {i : ℕ} (hi : i < s.slotSize) :
  s.slot i ≠ none
  := by
  have hpos := s.slotSize_pos
  intro hfree
  -- the turn of the loop at which the slot is looked at
  let turn := (i + (s.slotSize - s.handleIndex % s.slotSize)) % s.slotSize
  have hturn : (turn + s.handleIndex) &&& HANDLE_MASK ∈
      (List.range s.slotSize).map fun i => (i + s.handleIndex) &&& HANDLE_MASK :=
    List.mem_map_of_mem (List.mem_range.mpr (Nat.mod_lt _ hpos))
  have hhash : s.hash ((turn + s.handleIndex) &&& HANDLE_MASK) = i := by
    have hlt : s.handleIndex % s.slotSize < s.slotSize := Nat.mod_lt _ hpos
    have hdiv := Nat.div_add_mod s.handleIndex s.slotSize
    have hsum : i + (s.slotSize - s.handleIndex % s.slotSize) + s.handleIndex
        = i + s.slotSize * (s.handleIndex / s.slotSize + 1) := by
      rw [Nat.mul_succ]
      omega
    rw [hash_eq_mod, and_handle_mask, Nat.mod_mod_of_dvd _ s.slotSize_dvd, Nat.mod_add_mod, hsum,
      Nat.add_mul_mod_self_left, Nat.mod_eq_of_lt hi]
  have htaken := List.find?_eq_none.mp h _ hturn
  rw [hhash, hfree] at htaken
  exact htaken rfl

section Register

variable {key handleOf : ℕ → ℕ} {member : ℕ → Prop} {s : HandleStorage}

/-- The table of twice the size is complete, if the contexts of the services have handles for the slots in
which they belong. -/
theorem rehash_spec (h : Residues key member s.slotSize s.slot)
    (hfull : ∀ i, i < s.slotSize → s.slot i ≠ none)
    (hhandle : ∀ ctx, member ctx → handleOf ctx % (s.slotSize * 2) = key ctx % (s.slotSize * 2)) :
  ∃ newSlot, s.rehash handleOf = .ok newSlot ∧ Residues key member (s.slotSize * 2) newSlot
  := by
  have hrange : ∀ n, n ≤ s.slotSize → ∃ newSlot,
      (List.range n).foldlM (s.rehashOne handleOf) (fun _ => none) = .ok newSlot ∧
        Residues key (fun ctx => member ctx ∧ key ctx % s.slotSize < n) (s.slotSize * 2) newSlot := by
    intro n
    induction n with
    | zero =>
        intro _
        refine ⟨fun _ => none, rfl, ?_⟩
        exact (Residues.empty key _).congr (fun _ => iff_of_false (fun hlt => Nat.not_lt_zero _ hlt.2) id)
          fun _ => False.elim
    | succ n ih =>
        intro hn
        obtain ⟨newSlot, hfold, hnew⟩ := ih (Nat.le_of_succ_le hn)
        obtain ⟨ctx, hctx⟩ := Option.ne_none_iff_exists'.mp (hfull n hn)
        have hhash : handleOf ctx &&& (s.slotSize * 2 - 1) = key ctx % (s.slotSize * 2) := by
          rw [← hhandle ctx ((h n ctx).mp hctx).1]
          exact Nat.and_two_pow_sub_one_eq_mod _ (s.slotBits + 1)
        have hfree := h.double_free hnew hctx
        refine ⟨_, ?_, h.double_put hnew hctx⟩
        rw [List.range_succ, List.foldlM_append, hfold]
        have hone : s.rehashOne handleOf newSlot n
            = .ok (Function.update newSlot (key ctx % (s.slotSize * 2)) (some ctx)) := by
          rw [rehashOne, hctx]
          dsimp only
          rw [hhash, if_pos hfree]
        simp only [List.foldlM_cons, List.foldlM_nil]
        exact (congrArg (fun x => x >>= pure) hone)
  obtain ⟨newSlot, hfold, hnew⟩ := hrange s.slotSize (Nat.le_refl _)
  exact ⟨newSlot, hfold, Residues.double_done s.slotSize_pos hnew⟩

/-- A service is put in the free slot that the scan finds. -/
theorem register_of_scan {handle : ℕ} (h : s.scan = some handle) (ctx : ℕ) :
  s.register handleOf ctx = .ok (handle ||| s.harbor,
    { s with slot := Function.update s.slot (s.hash handle) (some ctx), handleIndex := handle + 1 })
  := by rw [register, h]

/-- After that the service is in the table. -/
theorem residues_register (h : Residues key member s.slotSize s.slot) {handle : ℕ}
    (hscan : s.scan = some handle) {ctx : ℕ} (hctx : ¬ member ctx) :
  Residues (Function.update key ctx (handle ||| s.harbor)) (fun c => c = ctx ∨ member c) s.slotSize
    (Function.update s.slot (s.hash handle) (some ctx))
  := by
  have hkey : Function.update key ctx (handle ||| s.harbor) ctx % s.slotSize = s.hash handle := by
    rw [Function.update_self, ← hash_eq_mod, hash_or_harbor]
  have hsame : Residues (Function.update key ctx (handle ||| s.harbor)) member s.slotSize s.slot := by
    apply h.congr fun _ => Iff.rfl
    intro c hc
    apply Function.update_of_ne
    rintro rfl
    exact hctx hc
  rw [← hkey]
  apply hsame.insert
  rw [hkey]
  exact (scan_some hscan).1

/-- A service is registered unless there are too many, provided that, if every slot is taken, the contexts
have handles for the slots in which they belong in the table of twice the size. -/
theorem register_spec (h : Residues key member s.slotSize s.slot)
    (hhandle : (∀ i, i < s.slotSize → s.slot i ≠ none) →
      ∀ ctx, member ctx → handleOf ctx % (s.slotSize * 2) = key ctx % (s.slotSize * 2))
    {ctx : ℕ} (hctx : ¬ member ctx) :
  s.register handleOf ctx = .error .full ∨
  ∃ handle s', s.register handleOf ctx = .ok (handle, s') ∧
    Residues (Function.update key ctx handle) (fun c => c = ctx ∨ member c) s'.slotSize s'.slot
  := by
  cases hscan : s.scan with
  | some handle => exact .inr ⟨_, _, register_of_scan hscan ctx, residues_register h hscan hctx⟩
  | none =>
      have hfull := fun i hi => scan_none hscan (i := i) hi
      obtain ⟨newSlot, hrehash, hnew⟩ := rehash_spec h hfull (hhandle hfull)
      rw [register, hscan]
      dsimp only
      split
      · next hsize =>
          right
          rw [hrehash]
          dsimp only
          let grown : HandleStorage :=
            { s with slot := newSlot, slotBits := s.slotBits + 1, slotBits_le := s.slotBits_lt hsize }
          have hgrown : Residues key member grown.slotSize grown.slot := hnew
          cases hagain : grown.scan with
          | some handle => exact ⟨_, _, register_of_scan hagain ctx, residues_register hgrown hagain hctx⟩
          | none =>
              obtain ⟨i, hi, hfree⟩ := hnew.exists_free s.slotSize_pos fun _ _ => h.eq_of_mod_eq
              exact absurd hfree (scan_none hagain hi)
      · exact .inl rfl

end Register

/-- A context that is found is in the slot of the handle, and has it. -/
theorem grab_eq_some {s : HandleStorage} {handleOf : ℕ → ℕ} {handle ctx : ℕ} :
  s.grab handleOf handle = some ctx ↔ s.slot (s.hash handle) = some ctx ∧ handleOf ctx = handle
  := by
  rw [grab]
  cases hslot : s.slot (s.hash handle) with
  | none => exact iff_of_false nofun fun h => nomatch h.1
  | some c =>
      dsimp only
      split
      · next h =>
          rw [Option.some.injEq]
          constructor
          · rintro rfl
            exact ⟨rfl, h⟩
          · exact And.left
      · next h =>
          refine iff_of_false nofun ?_
          rintro ⟨hc, hhandle⟩
          rw [Option.some.inj hc] at h
          exact h hhandle

/-- Retiring takes out what would be found, and nothing else. -/
theorem retire_slot (s : HandleStorage) (handleOf : ℕ → ℕ) (handle : ℕ) :
  (s.retire handleOf handle).1 = s.grab handleOf handle ∧
  (s.retire handleOf handle).2.slotBits = s.slotBits ∧
  (s.retire handleOf handle).2.slot = match s.grab handleOf handle with
    | none => s.slot
    | some _ => Function.update s.slot (s.hash handle) none
  := by
  rw [retire, grab]
  cases hslot : s.slot (s.hash handle) with
  | none => exact ⟨rfl, rfl, rfl⟩
  | some ctx =>
      dsimp only
      split
      · exact ⟨rfl, rfl, rfl⟩
      · exact ⟨rfl, rfl, rfl⟩

end HandleStorage

end Skynet
