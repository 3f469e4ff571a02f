import FWServer.Skynet.Handles

/-!
# The handle that is reserved

`skynet_handle_init` lets the handles begin with 1, to reserve 0 for the system.  When the index has passed
`HANDLE_MASK`, `skynet_handle_register` goes on with 0 like with any other handle, and returns it if its slot is the
first one that is free.
-/

namespace Skynet

namespace HandleStorage

/-- The handle 0 is the first one, from the index on, whose slot is free in a table of `size` slots. -/
def ZeroFirst (index size : ℕ) (slot : ℕ → Option ℕ) : Prop :=
  2 ^ 24 - index < size ∧ slot 0 = none ∧ ∀ j, index ≤ j → j < 2 ^ 24 → slot (j % size) ≠ none

/-- The scan comes to 0 after the greatest handle. -/
theorem scan_eq_zero_iff {s : HandleStorage} (hpos : 1 ≤ s.handleIndex) (hle : s.handleIndex ≤ 2 ^ 24) :
  s.scan = some 0 ↔ ZeroFirst s.handleIndex s.slotSize s.slot
  := by
  have hsize : s.slotSize ≤ 2 ^ 24 := Nat.le_of_dvd (Nat.two_pow_pos 24) s.slotSize_dvd
  unfold scan
  rw [List.find?_map, Option.map_eq_some_iff]
  simp only [Function.comp_def, hash_eq_mod, and_handle_mask]
  constructor
  · rintro ⟨i, hfind, hzero⟩
    obtain ⟨hfree, hi, hbefore⟩ := List.find?_range_eq_some.mp hfind
    rw [List.mem_range] at hi
    have hplace : i = 2 ^ 24 - s.handleIndex := by omega
    rw [hzero, Nat.zero_mod] at hfree
    refine ⟨by omega, of_decide_eq_true hfree, ?_⟩
    intro j hj hlt
    have htaken := hbefore (j - s.handleIndex) (by omega)
    rw [Nat.sub_add_cancel hj, Nat.mod_eq_of_lt hlt] at htaken
    simpa using htaken
  · rintro ⟨hlt, hfree, hbefore⟩
    have hzero : (2 ^ 24 - s.handleIndex + s.handleIndex) % 2 ^ 24 = 0 := by
      rw [Nat.sub_add_cancel hle, Nat.mod_self]
    refine ⟨2 ^ 24 - s.handleIndex, List.find?_range_eq_some.mpr ⟨?_, List.mem_range.mpr hlt, ?_⟩, hzero⟩
    · rw [hzero, Nat.zero_mod]
      exact decide_eq_true hfree
    · intro j hj
      have htaken := hbefore (j + s.handleIndex) (Nat.le_add_left _ _) (by omega)
      have hmod : (j + s.handleIndex) % 2 ^ 24 = j + s.handleIndex := Nat.mod_eq_of_lt (by omega)
      rw [hmod]
      simpa using htaken

/-- The number of the node has no part in the low bits of a handle. -/
theorem or_harbor_mod (s : HandleStorage) {handle : ℕ} (h : handle < 2 ^ 24) :
  (handle ||| s.harbor) % 2 ^ 24 = handle
  := by
  rw [Nat.or_mod_two_pow, Nat.mod_eq_zero_of_dvd s.harbor_dvd, Nat.or_zero, Nat.mod_eq_of_lt h]

section Register

variable {key handleOf : ℕ → ℕ} {member : ℕ → Prop} {s s' : HandleStorage} {ctx handle : ℕ}

/-- A handle is returned from the table, or from the one of twice the size when every slot is taken. -/
theorem register_ok (h : Residues key member s.slotSize s.slot)
    (hhandle : (∀ i, i < s.slotSize → s.slot i ≠ none) →
      ∀ ctx, member ctx → handleOf ctx % (s.slotSize * 2) = key ctx % (s.slotSize * 2))
    (hregister : s.register handleOf ctx = .ok (handle, s')) :
  ∃ t : HandleStorage, t.handleIndex = s.handleIndex ∧ Residues key member t.slotSize t.slot ∧
    (t.slotSize = if ∀ i, i < s.slotSize → s.slot i ≠ none then s.slotSize * 2 else s.slotSize) ∧
    ∃ low, t.scan = some low ∧ handle = low ||| t.harbor ∧ s'.handleIndex = low + 1
  := by
  cases hscan : s.scan with
  | some low =>
      rw [register_of_scan hscan] at hregister
      obtain ⟨rfl, rfl⟩ := Prod.mk.inj (Except.ok.inj hregister)
      refine ⟨s, rfl, h, ?_, low, hscan, rfl, rfl⟩
      have hlt : s.hash low < s.slotSize := by
        rw [hash_eq_mod]
        exact Nat.mod_lt _ s.slotSize_pos
      rw [if_neg]
      intro hfull
      exact hfull _ hlt (scan_some hscan).1
  | none =>
      have hfull := fun i hi => scan_none hscan (i := i) hi
      obtain ⟨newSlot, hrehash, hnew⟩ := rehash_spec h hfull (hhandle hfull)
      rw [register, hscan] at hregister
      dsimp only at hregister
      split at hregister
      · next hsize =>
          rw [hrehash] at hregister
          dsimp only at hregister
          let grown : HandleStorage :=
            { s with slot := newSlot, slotBits := s.slotBits + 1, slotBits_le := s.slotBits_lt hsize }
          change grown.register handleOf ctx = .ok (handle, s') at hregister
          have hgrown : Residues key member grown.slotSize grown.slot := hnew
          cases hagain : grown.scan with
          | some low =>
              rw [register_of_scan hagain] at hregister
              obtain ⟨rfl, rfl⟩ := Prod.mk.inj (Except.ok.inj hregister)
              refine ⟨grown, rfl, hgrown, ?_, low, hagain, rfl, rfl⟩
              rw [if_pos hfull]
              rfl
          | none =>
              obtain ⟨i, hi, hfree⟩ := hnew.exists_free s.slotSize_pos fun _ _ => h.eq_of_mod_eq
              exact absurd hfree (scan_none hagain hi)
      · cases hregister

end Register

end HandleStorage

namespace Registry

/-! ### Contexts and their slots -/

/-- The size of the table in which the next context is registered. -/
def nextSize (r : Registry) : ℕ :=
  if ∀ i, i < r.storage.slotSize → r.storage.slot i ≠ none then r.storage.slotSize * 2 else r.storage.slotSize

/-- A context that is in the table has the slot of a handle, if the table has `size` slots. -/
def Taken (r : Registry) (size handle : ℕ) : Prop :=
  ∃ ctx, (r.life ctx).listed = true ∧ (r.life ctx).key % size = handle % size

/-- The next registration comes to 0: the slots from the index on, up to that of the greatest handle, are taken, and
that of 0 is free. -/
structure ComesToZero (r : Registry) : Prop where
  near : 2 ^ 24 - r.storage.handleIndex < r.nextSize
  free : ¬ r.Taken r.nextSize 0
  taken : ∀ handle, r.storage.handleIndex ≤ handle → handle < 2 ^ 24 → r.Taken r.nextSize handle

/-- A step that does not register a context with the handle 0. -/
def Spare (r : Registry) : Step → Prop
  | .register _ => ¬ r.ComesToZero
  | _ => True

/-- No context has been given a handle that is 0 in its low bits, and no two contexts in the table have been given the
same handle. -/
structure Reserved (r : Registry) : Prop where
  nonzero : ∀ ctx handle, r.life ctx = .registered handle ∨ r.life ctx = .live handle ∨ r.life ctx = .retired handle →
    handle % 2 ^ 24 ≠ 0
  distinct : ∀ ctx ctx', (r.life ctx).listed = true → (r.life ctx').listed = true →
    (r.life ctx).key = (r.life ctx').key → ctx = ctx'

section Reserved

variable {r r' : Registry} {ctx : ℕ}

theorem taken_iff {size handle : ℕ} {slot : ℕ → Option ℕ}
    (h : Residues (fun c => (r.life c).key) (fun c => (r.life c).listed = true) size slot) :
  r.Taken size handle ↔ slot (handle % size) ≠ none
  := by
  rw [Option.ne_none_iff_exists']
  exact exists_congr fun c => (h _ c).symm

theorem comesToZero_iff {slot : ℕ → Option ℕ}
    (h : Residues (fun c => (r.life c).key) (fun c => (r.life c).listed = true) r.nextSize slot) :
  r.ComesToZero ↔ HandleStorage.ZeroFirst r.storage.handleIndex r.nextSize slot
  := by
  constructor
  · rintro ⟨hnear, hfree, htaken⟩
    rw [taken_iff h, Nat.zero_mod, not_not] at hfree
    exact ⟨hnear, hfree, fun j hj hlt => (taken_iff h).mp (htaken j hj hlt)⟩
  · rintro ⟨hnear, hfree, htaken⟩
    refine ⟨hnear, ?_, fun j hj hlt => (taken_iff h).mpr (htaken j hj hlt)⟩
    rw [taken_iff h, Nat.zero_mod, not_not]
    exact hfree

/-- What a registration returns is 0 in its low bits precisely when it comes to 0. -/
theorem register_zero_iff (h : Good r) (hpos : 1 ≤ r.storage.handleIndex) (hle : r.storage.handleIndex ≤ 2 ^ 24)
    (hctx : r.life ctx = .unborn) (hok : Harmless r (.register ctx)) (hregister : r.register ctx = some r') :
  ∃ handle, r'.life = Function.update r.life ctx (.registered handle) ∧
    (handle % 2 ^ 24 = 0 ↔ r.ComesToZero) ∧ 1 ≤ r'.storage.handleIndex ∧ r'.storage.handleIndex ≤ 2 ^ 24
  := by
  have hasserted := (h.register hctx hok hregister).asserted
  unfold Registry.register at hregister
  dsimp only at hregister
  split at hregister
  · next handle storage hstorage =>
      obtain rfl := Option.some.inj hregister
      obtain ⟨t, hindex, htable, hsize, low, hscan, rfl, hnext⟩ :=
        HandleStorage.register_ok h.table (fun hfull c hc => h.handle_eq hctx hok hfull hc) hstorage
      have hlt := (HandleStorage.scan_some hscan).2
      have hnextSize : t.slotSize = r.nextSize := hsize
      have hindex' : 1 ≤ storage.handleIndex ∧ storage.handleIndex ≤ 2 ^ 24 := by omega
      refine ⟨low ||| t.harbor, rfl, ?_, hindex'⟩
      have hzero : low = 0 ↔ t.scan = some 0 := by
        rw [hscan, Option.some.injEq]
      rw [hnextSize] at htable
      rw [t.or_harbor_mod hlt, hzero, HandleStorage.scan_eq_zero_iff (hindex ▸ hpos) (hindex ▸ hle),
        comesToZero_iff htable, hindex, hnextSize]
  · obtain rfl := Option.some.inj hregister
    cases hasserted
  · cases hregister

theorem handleIndex_retire (s : HandleStorage) (handleOf : ℕ → ℕ) (handle : ℕ) :
  (s.retire handleOf handle).2.handleIndex = s.handleIndex
  := by
  unfold HandleStorage.retire
  dsimp only
  split
  · rfl
  · split
    · rfl
    · rfl

/-- What holds of the table and of the handles that have been given out. -/
structure Numbered (r : Registry) : Prop where
  good : Good r
  pos : 1 ≤ r.storage.handleIndex
  le : r.storage.handleIndex ≤ 2 ^ 24
  reserved : Reserved r

theorem Good.distinct_key (h : Good r) {c c' : ℕ} (hc : (r.life c).listed = true) (hc' : (r.life c').listed = true)
    (hkey : (r.life c).key = (r.life c').key) :
  c = c'
  := h.table.eq_of_mod_eq hc hc' (congrArg (· % r.storage.slotSize) hkey)

theorem numbered_start (harbor : ℕ) :
  Numbered (start harbor)
  := by
  have hgood := good_start harbor
  refine ⟨hgood, Nat.le_refl 1, Nat.one_le_two_pow, ?_, fun _ _ => hgood.distinct_key⟩
  rintro c handle (hc | hc | hc)
  · cases hc
  · cases hc
  · cases hc

/-- A registration keeps the handles reserved precisely when it does not come to 0. -/
theorem Numbered.register_iff (h : Numbered r) (hctx : r.life ctx = .unborn) (hok : Harmless r (.register ctx))
    (hregister : r.register ctx = some r') :
  Reserved r' ↔ ¬ r.ComesToZero
  := by
  obtain ⟨handle, hlife, hzero, -⟩ := register_zero_iff h.good h.pos h.le hctx hok hregister
  have hgood := h.good.register hctx hok hregister
  rw [← hzero]
  constructor
  · intro hreserved
    apply hreserved.nonzero ctx
    left
    rw [hlife, Function.update_self]
  · intro hnonzero
    refine ⟨?_, fun _ _ => hgood.distinct_key⟩
    intro c handle' hc
    rw [hlife] at hc
    rcases eq_or_ne c ctx with rfl | hne
    · rw [Function.update_self] at hc
      rcases hc with hc | hc | hc
      · rwa [← Life.registered.inj hc]
      · cases hc
      · cases hc
    · rw [Function.update_of_ne hne] at hc
      exact h.reserved.nonzero c handle' hc

theorem Numbered.step (h : Numbered r) {l : Step} (hok : Harmless r l) (hspare : Spare r l)
    (hstep : r.step l = some r') :
  Numbered r'
  := by
  have hgood := h.good.step hok hstep
  obtain ⟨ctx, rfl, hctx, hregister⟩ | ⟨ctx, handle, rfl, hlife, rfl⟩ | ⟨handle, rfl, rfl⟩ | ⟨handle, rfl, rfl⟩ :=
    step_cases hstep
  · obtain ⟨-, -, -, hpos, hle⟩ := register_zero_iff h.good h.pos h.le hctx hok hregister
    exact ⟨hgood, hpos, hle, (h.register_iff hctx hok hregister).mpr hspare⟩
  · refine ⟨hgood, h.pos, h.le, ?_, fun _ _ => hgood.distinct_key⟩
    intro c handle' hc
    dsimp only [assign] at hc
    rcases eq_or_ne c ctx with rfl | hne
    · rw [Function.update_self] at hc
      rcases hc with hc | hc | hc
      · cases hc
      · rw [← Life.live.inj hc]
        exact h.reserved.nonzero c handle (.inl hlife)
      · cases hc
    · rw [Function.update_of_ne hne] at hc
      exact h.reserved.nonzero c handle' hc
  · have hindex := handleIndex_retire r.storage r.handle handle
    refine ⟨hgood, hindex.symm ▸ h.pos, hindex.symm ▸ h.le, ?_, fun _ _ => hgood.distinct_key⟩
    intro c handle' hc
    rw [retire_life] at hc
    split at hc
    · next hlive =>
        rcases hc with hc | hc | hc
        · cases hc
        · cases hc
        · rw [← Life.retired.inj hc]
          exact h.reserved.nonzero c handle (.inr (.inl hlive))
    · exact h.reserved.nonzero c handle' hc
  · exact h

/-- As long as all steps are harmless and no registration comes to 0, no service is given a handle that is 0 in its low
bits, or one that another service still has; and a registration that comes to 0 returns it. -/
theorem zero_reserved (h : machine.Reaches (fun r l => Harmless r l ∧ Spare r l) r) :
  Reserved r ∧ ∀ ctx r', r.life ctx = .unborn → Harmless r (.register ctx) → r.register ctx = some r' →
    (Reserved r' ↔ ¬ r.ComesToZero)
  := by
  have hnumbered : Numbered r := by
    apply Machine.invariant _ _ h
    · rintro _ ⟨harbor, rfl⟩
      exact numbered_start harbor
    · intro s l s' hs hok hstep
      exact hs.step hok.1 hok.2 hstep
  exact ⟨hnumbered.reserved, fun ctx r' hctx hok hregister => hnumbered.register_iff hctx hok hregister⟩

/-- A table with few slots is far from 0 at its start. -/
theorem not_comesToZero (hfew : r.storage.slotBits ≤ 20) (hindex : r.storage.handleIndex ≤ 2 ^ 20) :
  ¬ r.ComesToZero
  := by
  rintro ⟨hnear, -, -⟩
  have hsize : r.storage.slotSize ≤ 2 ^ 20 := Nat.pow_le_pow_right Nat.two_pos hfew
  unfold nextSize at hnear
  split at hnear
  · omega
  · omega

theorem zero_reserved_five :
  ∃ r, machine.exec (start 1) fiveServices = some r ∧ r.storage.slotSize = 8 ∧
    r.life 0 = .retired 0x1000001 ∧ r.life 5 = .live 0x1000006 ∧ Reserved r
  := by
  have hlives : (machine.exec (start 1) fiveServices).map (fun r => (r.storage.slotSize, r.life 0, r.life 5))
      = some (8, .retired 0x1000001, .live 0x1000006) := by
    decide +kernel
  obtain ⟨r, hr, hlives⟩ := Option.map_eq_some_iff.mp hlives
  obtain ⟨hsize, hlives⟩ := Prod.mk.inj hlives
  obtain ⟨hretired, hlive⟩ := Prod.mk.inj hlives
  have hspare : machine.Guarded Spare (start 1) fiveServices := by
    let few (r : Registry) (_ : Step) : Bool := r.storage.slotBits ≤ 20 ∧ r.storage.handleIndex ≤ 2 ^ 20
    apply Machine.guarded_of_passes few _ (by decide +kernel)
    intro s l hfew
    obtain ⟨hbits, hindex⟩ := of_decide_eq_true hfew
    cases l with
    | register ctx => exact not_comesToZero hbits hindex
    | _ => trivial
  have hstart : machine.Reaches (fun r l => Harmless r l ∧ Spare r l) (start 1) := .init ⟨1, rfl⟩
  have hreaches := Machine.Reaches.exec _ hstart (fiveServices_harmless.and hspare) hr
  exact ⟨r, hr, hsize, hretired, hlive, (zero_reserved hreaches).1⟩

/-! ### After all handles -/

/-- Services that are registered and retired one after the other, the first `n`. -/
def rounds (n : ℕ) : List Step :=
  (List.range n).flatMap fun c => [.register c, .assign c, .retire (c + 1)]

/-- A node whose table is empty, with the index behind `n` handles. -/
structure Passed (r : Registry) (n : ℕ) : Prop where
  storage : r.storage = { HandleStorage.init 0 with handleIndex := n + 1 }
  unborn : ∀ c ≥ n, r.life c = .unborn
  running : r.aborted = false

/-- The first slot that is looked at is free. -/
theorem Passed.scan {n : ℕ} (h : Passed r n) :
  r.storage.scan = some ((n + 1) % 2 ^ 24)
  := by
  rw [← HandleStorage.and_handle_mask, h.storage, HandleStorage.scan, List.find?_map]
  change Option.map _ ((0 :: [1, 2, 3]).find? _) = _
  rw [List.find?_cons_of_pos]
  · rw [Option.map_some, Nat.zero_add]
  · rfl

/-- A service is registered under the next handle. -/
theorem Passed.register {n : ℕ} (h : Passed r n) :
  r.step (.register n) = some
    { r with
      storage :=
        { HandleStorage.init 0 with
          slot := Function.update (fun _ => none) (r.storage.hash ((n + 1) % 2 ^ 24)) (some n)
          handleIndex := (n + 1) % 2 ^ 24 + 1 }
      handle := Function.update r.handle n 0
      life := Function.update r.life n (.registered ((n + 1) % 2 ^ 24))
      aborted := false }
  := by
  have hharbor : (n + 1) % 2 ^ 24 ||| r.storage.harbor = (n + 1) % 2 ^ 24 := by
    rw [h.storage]
    exact Nat.or_zero _
  rw [step, h.running, if_neg Bool.false_ne_true]
  dsimp only
  rw [h.unborn n (Nat.le_refl n)]
  dsimp only
  unfold Registry.register
  dsimp only
  rw [HandleStorage.register_of_scan h.scan, hharbor]
  dsimp only
  rw [h.storage, h.running]
  rfl

/-- The service is retired, and its slot is free again. -/
theorem Passed.round {n : ℕ} (h : Passed r n) (hn : n + 1 < 2 ^ 24) :
  ∃ r', machine.exec r [.register n, .assign n, .retire (n + 1)] = some r' ∧ Passed r' (n + 1)
  := by
  have hregister := h.register
  rw [Nat.mod_eq_of_lt hn] at hregister
  generalize hs : (Registry.mk _ _ _ _) = s at hregister
  have hstorage : s.storage =
      { HandleStorage.init 0 with
        slot := Function.update (fun _ => none) (r.storage.hash (n + 1)) (some n)
        handleIndex := n + 2 } := by rw [← hs]
  have hlife : s.life = Function.update r.life n (.registered (n + 1)) := by rw [← hs]
  have hrunning : s.aborted = false := by rw [← hs]
  have hassign : s.step (.assign n) = some (s.assign n (n + 1)) := by
    rw [step, hrunning, if_neg Bool.false_ne_true, hlife, Function.update_self]
  have hretire : (s.assign n (n + 1)).step (.retire (n + 1)) = some ((s.assign n (n + 1)).retire (n + 1)) := by
    rw [step]
    exact if_neg (hrunning ▸ Bool.false_ne_true)
  refine ⟨(s.assign n (n + 1)).retire (n + 1), ?_, ?_, ?_, hrunning⟩
  · rw [Machine.exec_cons hregister, Machine.exec_cons hassign, Machine.exec_cons hretire]
    rfl
  · have hhash : r.storage.hash (n + 1) = s.storage.hash (n + 1) := by
      rw [h.storage, hstorage]
      rfl
    have hslot : s.storage.slot (s.storage.hash (n + 1)) = some n := by
      rw [← hhash, hstorage]
      exact Function.update_self (r.storage.hash (n + 1)) (some n) fun _ => none
    have hcleared : Function.update s.storage.slot (s.storage.hash (n + 1)) none = fun _ => none := by
      rw [← hhash, hstorage]
      exact (Function.update_idem _ _ _).trans (Function.update_eq_self _ _)
    change (s.storage.retire (Function.update s.handle n (n + 1)) (n + 1)).2 = _
    unfold HandleStorage.retire
    dsimp only
    rw [hslot]
    dsimp only
    rw [if_pos (Function.update_self _ _ _), hcleared, hstorage]
    rfl
  · intro c hc
    have hne : c ≠ n := by omega
    have hunborn : (s.assign n (n + 1)).life c = .unborn := by
      dsimp only [assign]
      rw [Function.update_of_ne hne, hlife, Function.update_of_ne hne]
      exact h.unborn c (by omega)
    rw [retire_life, hunborn]
    rfl

theorem passed_start :
  Passed (start 0) 0
  := ⟨rfl, fun _ _ => rfl, rfl⟩

/-- One service after the other, without a handle coming twice. -/
theorem passed_rounds {n : ℕ} (hn : n < 2 ^ 24) :
  ∃ r, machine.exec (start 0) (rounds n) = some r ∧ Passed r n
  := by
  induction n with
  | zero => exact ⟨start 0, rfl, passed_start⟩
  | succ n ih =>
      obtain ⟨r, hr, hpassed⟩ := ih (by omega)
      obtain ⟨r', hround, hpassed'⟩ := hpassed.round hn
      refine ⟨r', ?_, hpassed'⟩
      rw [rounds, List.range_succ, List.flatMap_append, List.flatMap_singleton, ← rounds, Machine.exec_append hr,
        hround]

/-- When all the handles have been given to services that were then retired, the next service is given the handle 0. -/
theorem zero_registered :
  ∃ r, machine.exec (start 0) (rounds (2 ^ 24 - 1) ++ [.register (2 ^ 24 - 1)]) = some r ∧
    r.life (2 ^ 24 - 1) = .registered 0 ∧ ¬ Reserved r
  := by
  have hlast : ∀ n, n + 1 = 2 ^ 24 →
      ∃ r, machine.exec (start 0) (rounds n ++ [.register n]) = some r ∧ r.life n = .registered 0 := by
    intro n hn
    obtain ⟨r, hr, hpassed⟩ := passed_rounds (n := n) (by omega)
    have hregister := hpassed.register
    rw [hn, Nat.mod_self] at hregister
    have hrun := Machine.exec_append hr [.register n]
    rw [Machine.exec_cons hregister] at hrun
    exact ⟨_, hrun, Function.update_self _ _ _⟩
  obtain ⟨r, hr, hlife⟩ := hlast (2 ^ 24 - 1) rfl
  refine ⟨r, hr, hlife, ?_⟩
  intro h
  exact h.nonzero _ 0 (.inl hlife) (Nat.zero_mod _)

end Reserved

end Registry

end Skynet
