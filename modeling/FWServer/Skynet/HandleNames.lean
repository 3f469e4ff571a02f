import FWServer.Kernel.Machine
import FWServer.Kernel.SortedArray
import FWServer.Skynet.HandleStorage

/-!
# The names of handles

`skynet-src/skynet_handle.c`: the array of names, kept in the order of `strcmp`.  A name is found by binary
search; a new one is put in its place, in the same array or, if that is full, in one of twice the size; and
the names of a handle are taken out when it is retired.

`Names` follows the array through any run, beside the map it stands for.
-/

namespace Skynet

/-- `strcmp`, for names without the byte 0 that ends them: they are compared as sequences of unsigned bytes. -/
def strcmp (a b : List UInt8) : Ordering :=
  compare a b

instance : Std.TransCmp strcmp :=
  inferInstanceAs (Std.TransCmp (compare : List UInt8 → List UInt8 → Ordering))

instance : Std.LawfulEqCmp strcmp :=
  inferInstanceAs (Std.LawfulEqCmp (compare : List UInt8 → List UInt8 → Ordering))

namespace HandleStorage

/-- The binary search in `skynet_handle_findname` and `_insert_name`, from `begin = 0` and
`end = name_count - 1`. -/
def locate (s : HandleStorage) (name : List UInt8) : Located :=
  binarySearch strcmp (fun i => (s.name i).name) name 0 ((s.nameCount : ℤ) - 1)

/-- `skynet_handle_findname` -/
def findname (s : HandleStorage) (name : List UInt8) : ℕ :=
  match s.locate name with
  | .found mid => (s.name mid).handle
  | .absent _ => 0

/-- `_insert_name_before`, which fails if there are too many names. -/
def insertNameBefore (s : HandleStorage) (name : List UInt8) (handle before : ℕ) : Option HandleStorage :=
  if s.nameCount ≥ s.nameCap then
    let nameCap := s.nameCap * 2
    if nameCap ≤ MAX_SLOT_SIZE then
      let n := (List.range before).foldl (fun n i => Function.update n i (s.name i)) fun _ => default
      let n := (List.range' before (s.nameCount - before)).foldl
        (fun n i => Function.update n (i + 1) (s.name i)) n
      some { s with
        nameCap := nameCap
        name := Function.update n before ⟨name, handle⟩
        nameCount := s.nameCount + 1 }
    else none
  else
    let n := (List.range' (before + 1) (s.nameCount - before)).reverse.foldl
      (fun n i => Function.update n i (n (i - 1))) s.name
    some { s with name := Function.update n before ⟨name, handle⟩, nameCount := s.nameCount + 1 }

/-- `skynet_handle_namehandle`, with `_insert_name`: the copy of the name, or nothing if it is taken, and the
table. -/
def namehandle (s : HandleStorage) (handle : ℕ) (name : List UInt8) :
    Option (Option (List UInt8) × HandleStorage) :=
  match s.locate name with
  | .found _ => some (none, s)
  | .absent first => (s.insertNameBefore name handle first).map fun s => (some name, s)

/-! ### The list of names -/

/-- The names with their handles, in order. -/
def names (s : HandleStorage) : List HandleName :=
  firsts s.name s.nameCount

/-- The names are in strictly ascending order. -/
def Sorted (s : HandleStorage) : Prop :=
  s.names.Pairwise fun a b => strcmp a.name b.name = .lt

section Names

variable {s s' : HandleStorage} {name : List UInt8} {handle : ℕ}

theorem Sorted.array (h : s.Sorted) :
  StrictlySorted strcmp (fun i => (s.name i).name) s.nameCount
  := by
  intro i j hij hj
  have hget := List.pairwise_iff_getElem.mp h i j (by simp [names]; omega) (by simpa [names]) hij
  simpa [names, firsts] using hget

/-- The search finds a name that is there, and the place of one that is not. -/
theorem Sorted.locate (h : s.Sorted) (name : List UInt8) :
  (s.locate name).Right strcmp (fun i => (s.name i).name) name s.nameCount
  := binarySearch_all h.array

/-- A name occurs once. -/
theorem Sorted.unique (h : s.Sorted) {a b : HandleName} (ha : a ∈ s.names) (hb : b ∈ s.names)
    (hname : a.name = b.name) :
  a = b
  := by
  obtain ⟨i, hi, rfl⟩ := mem_firsts.mp ha
  obtain ⟨j, hj, rfl⟩ := mem_firsts.mp hb
  have hsame : strcmp (s.name i).name (s.name j).name = .eq := Std.LawfulEqCmp.compare_eq_iff_eq.mpr hname
  have hsame' : strcmp (s.name j).name (s.name i).name = .eq :=
    Std.LawfulEqCmp.compare_eq_iff_eq.mpr hname.symm
  rcases Nat.lt_trichotomy i j with hlt | rfl | hgt
  · cases hsame.symm.trans (h.array i j hlt hj)
  · rfl
  · cases hsame'.symm.trans (h.array j i hgt hi)

theorem Sorted.locate_found (h : s.Sorted) {i : ℕ} (hi : s.locate name = .found i) :
  s.name i ∈ s.names ∧ (s.name i).name = name
  := by
  have hright := h.locate name
  rw [hi] at hright
  exact ⟨mem_firsts.mpr ⟨i, hright.1, rfl⟩, hright.2⟩

theorem Sorted.locate_absent (h : s.Sorted) {b : ℕ} (hb : s.locate name = .absent b) :
  b ≤ s.nameCount ∧ (∀ i, i < b → strcmp (s.name i).name name = .lt) ∧
    ∀ i, b ≤ i → i < s.nameCount → strcmp name (s.name i).name = .lt
  := by
  have hright := h.locate name
  rw [hb] at hright
  exact hright

/-- What is not found is not there. -/
theorem Sorted.not_mem_of_absent (h : s.Sorted) {b : ℕ} (hb : s.locate name = .absent b) :
  ⟨name, handle⟩ ∉ s.names
  := by
  obtain ⟨-, hbelow, habove⟩ := h.locate_absent hb
  have hrefl : strcmp name name = .eq := Std.LawfulEqCmp.compare_eq_iff_eq.mpr rfl
  intro hmem
  obtain ⟨i, hi, heq⟩ := mem_firsts.mp hmem
  have hname : (s.name i).name = name := congrArg HandleName.name heq
  rcases Nat.lt_or_ge i b with hlt | hge
  · have hcmp := hbelow i hlt
    rw [hname, hrefl] at hcmp
    cases hcmp
  · have hcmp := habove i hge hi
    rw [hname, hrefl] at hcmp
    cases hcmp

theorem Sorted.findname_of_mem (h : s.Sorted) (hmem : ⟨name, handle⟩ ∈ s.names) :
  s.findname name = handle
  := by
  rw [findname]
  cases hlocate : s.locate name with
  | found mid =>
      obtain ⟨hmid, hname⟩ := h.locate_found hlocate
      exact congrArg HandleName.handle (h.unique hmid hmem hname)
  | absent first => exact absurd hmem (h.not_mem_of_absent hlocate)

theorem Sorted.findname_of_not_mem (h : s.Sorted) (hmem : ∀ handle, ⟨name, handle⟩ ∉ s.names) :
  s.findname name = 0
  := by
  rw [findname]
  cases hlocate : s.locate name with
  | found mid =>
      obtain ⟨hmid, hname⟩ := h.locate_found hlocate
      subst hname
      exact absurd hmid (hmem _)
  | absent first => rfl

/-- On both paths the new name comes to stand in its place, and the slots are left alone. -/
theorem names_insertNameBefore {before : ℕ} (hbefore : before ≤ s.nameCount)
    (h : s.insertNameBefore name handle before = some s') :
  s'.names = s.names.take before ++ ⟨name, handle⟩ :: s.names.drop before
  := by
  rw [insertNameBefore] at h
  split at h
  · dsimp only at h
    split at h
    · obtain rfl := Option.some.inj h
      apply firsts_insert hbefore
      · intro i hi
        dsimp only
        rw [Function.update_of_ne (Nat.ne_of_lt hi), foldl_copy_succ, if_neg (by omega), foldl_copy, if_pos hi]
      · exact Function.update_self _ _ _
      · intro i hi hn
        dsimp only
        rw [Function.update_of_ne (by omega), foldl_copy_succ, if_pos (by omega), Nat.add_sub_cancel]
    · cases h
  · dsimp only at h
    obtain rfl := Option.some.inj h
    apply firsts_insert hbefore
    · intro i hi
      dsimp only
      rw [Function.update_of_ne (Nat.ne_of_lt hi), foldl_shift, if_neg (by omega)]
    · exact Function.update_self _ _ _
    · intro i hi hn
      dsimp only
      rw [Function.update_of_ne (by omega), foldl_shift, if_pos (by omega), Nat.add_sub_cancel]

/-- A name put where it belongs leaves the names in order. -/
theorem Sorted.insert (h : s.Sorted) {b : ℕ} (hb : s.locate name = .absent b)
    (hnames : s'.names = s.names.take b ++ ⟨name, handle⟩ :: s.names.drop b) :
  s'.Sorted
  := by
  obtain ⟨hle, hbelow, habove⟩ := h.locate_absent hb
  have hsplit : s.names.take b ++ s.names.drop b = s.names := List.take_append_drop b _
  have hsorted : (s.names.take b ++ s.names.drop b).Pairwise fun a b => strcmp a.name b.name = .lt := by
    rw [hsplit]
    exact h
  obtain ⟨htake, hdrop, hcross⟩ := List.pairwise_append.mp hsorted
  have hlower : ∀ a ∈ s.names.take b, strcmp a.name name = .lt := by
    intro a ha
    obtain ⟨i, hi, rfl⟩ := List.mem_take_iff_getElem.mp ha
    simp only [names, length_firsts] at hi
    have hget := hbelow i (by omega)
    simpa [names, firsts] using hget
  have hupper : ∀ a ∈ s.names.drop b, strcmp name a.name = .lt := by
    intro a ha
    obtain ⟨i, hi, rfl⟩ := List.mem_drop_iff_getElem.mp ha
    simp only [names, length_firsts] at hi
    have hget := habove (b + i) (by omega) (by omega)
    simpa [names, firsts] using hget
  rw [Sorted, hnames, List.pairwise_append]
  refine ⟨htake, List.pairwise_cons.mpr ⟨hupper, hdrop⟩, ?_⟩
  intro a ha c hc
  rcases List.mem_cons.mp hc with rfl | hc
  · exact hlower a ha
  · exact hcross a ha c hc

/-- A name that is there is refused, and nothing changes; another is put in its place. -/
theorem Sorted.namehandle_cases (h : s.Sorted) {result : Option (List UInt8)}
    (hcall : s.namehandle handle name = some (result, s')) :
  (result = none ∧ s' = s ∧ ∃ handle', ⟨name, handle'⟩ ∈ s.names) ∨
  (result = some name ∧ (∀ handle', ⟨name, handle'⟩ ∉ s.names) ∧ s'.Sorted ∧
    ∃ b, s'.names = s.names.take b ++ ⟨name, handle⟩ :: s.names.drop b)
  := by
  rw [namehandle] at hcall
  cases hlocate : s.locate name with
  | found i =>
      rw [hlocate] at hcall
      obtain ⟨rfl, rfl⟩ := Prod.mk.inj (Option.some.inj hcall)
      obtain ⟨hmem, rfl⟩ := h.locate_found hlocate
      exact .inl ⟨rfl, rfl, _, hmem⟩
  | absent b =>
      rw [hlocate] at hcall
      obtain ⟨t, hinsert, heq⟩ := Option.map_eq_some_iff.mp hcall
      obtain ⟨rfl, rfl⟩ := Prod.mk.inj heq
      have hnames := names_insertNameBefore (h.locate_absent hlocate).1 hinsert
      exact .inr ⟨rfl, fun _ => h.not_mem_of_absent hlocate, h.insert hlocate hnames, b, hnames⟩

theorem dropName_eq (handle : ℕ) :
  dropName handle = compactStep fun entry => entry.handle = handle
  := by
  funext ⟨name, j⟩ i
  unfold dropName compactStep
  simp only [decide_eq_true_eq]

/-- Retiring a handle that a service has takes out its names, and no others; otherwise nothing is taken out. -/
theorem names_retire (s : HandleStorage) (handleOf : ℕ → ℕ) (handle : ℕ) :
  (s.retire handleOf handle).2.names = if (s.retire handleOf handle).1.isSome then
    s.names.filter fun entry => entry.handle ≠ handle else s.names
  := by
  rw [retire]
  cases s.slot (s.hash handle) with
  | none => rfl
  | some ctx =>
      dsimp only
      split
      · obtain ⟨hfirsts, -⟩ := foldl_compact (fun entry => decide (entry.handle = handle)) s.name s.nameCount
        rw [← dropName_eq] at hfirsts
        rw [Option.isSome_some, if_pos rfl]
        refine hfirsts.trans ?_
        apply List.filter_congr
        intro entry _
        exact (decide_not).symm
      · rfl

/-- Registering a service leaves the names alone. -/
theorem names_register (handleOf : ℕ → ℕ) (ctx : ℕ) {handle : ℕ}
    (h : s.register handleOf ctx = .ok (handle, s')) :
  s'.names = s.names
  := by
  fun_induction register s handleOf ctx with
  | case1 s handle' hscan =>
      obtain ⟨-, rfl⟩ := Prod.mk.inj (Except.ok.inj h)
      rfl
  | case2 => cases h
  | case3 s hscan hsize newSlot hrehash ih => exact ih h
  | case4 => cases h

end Names

end HandleStorage

/-! ### Runs -/

/-- The table and the fields `handle` of the contexts, beside the handles that the names are bound to. -/
structure Names where
  storage : HandleStorage
  handleOf : ℕ → ℕ
  bound : List UInt8 → Option ℕ

namespace Names

/-- The calls that have to do with names, and those by which services come to be in the table. -/
inductive Call where
  | namehandle (handle : ℕ) (name : List UInt8)
  | retire (handle : ℕ)
  | findname (name : List UInt8)
  | register (ctx : ℕ)
  | assign (ctx handle : ℕ)

/-- Binds a name that is not bound. -/
def bind (bound : List UInt8 → Option ℕ) (handle : ℕ) (name : List UInt8) : List UInt8 → Option ℕ :=
  if bound name = none then Function.update bound name (some handle) else bound

/-- Unbinds the names of a handle. -/
def unbind (bound : List UInt8 → Option ℕ) (handle : ℕ) : List UInt8 → Option ℕ :=
  fun name => if bound name = some handle then none else bound name

/-- A call.  A handle has been retired when `skynet_handle_retire` has found a service that has it. -/
def step (n : Names) : Call → Option Names
  | .namehandle handle name =>
      (n.storage.namehandle handle name).map fun (_, storage) =>
        { n with storage := storage, bound := bind n.bound handle name }
  | .retire handle =>
      let (found, storage) := n.storage.retire n.handleOf handle
      some { n with
        storage := storage
        bound := if found.isSome then unbind n.bound handle else n.bound }
  | .findname _ => some n
  | .register ctx =>
      match n.storage.register n.handleOf ctx with
      | .ok (_, storage) => some { n with storage := storage }
      | .error _ => none
  | .assign ctx handle => some { n with handleOf := Function.update n.handleOf ctx handle }

/-- A fresh table. -/
def start (harbor : ℕ) : Names where
  storage := .init harbor
  handleOf _ := 0
  bound _ := none

/-- Any sequence of calls, from a fresh table on. -/
def machine : Machine Names Call where
  init n := ∃ harbor, n = start harbor
  step := step

/-- The array stands for the map. -/
structure Stands (n : Names) : Prop where
  sorted : n.storage.Sorted
  mem : ∀ name handle, ⟨name, handle⟩ ∈ n.storage.names ↔ n.bound name = some handle

section Stands

variable {n n' : Names}

theorem stands_start (harbor : ℕ) :
  Stands (start harbor)
  := ⟨List.Pairwise.nil, fun _ _ => iff_of_false List.not_mem_nil nofun⟩

theorem Stands.findname (h : Stands n) (name : List UInt8) :
  n.storage.findname name = (n.bound name).getD 0
  := by
  cases hbound : n.bound name with
  | none =>
      apply h.sorted.findname_of_not_mem
      intro handle hmem
      rw [h.mem, hbound] at hmem
      cases hmem
  | some handle => exact h.sorted.findname_of_mem ((h.mem name handle).mpr hbound)

theorem Stands.namehandle (h : Stands n) {handle : ℕ} {name : List UInt8} {result : Option (List UInt8)}
    {s' : HandleStorage} (hcall : n.storage.namehandle handle name = some (result, s')) :
  (result = none ↔ n.bound name ≠ none) ∧ (result = none → s' = n.storage) ∧
    Stands { n with storage := s', bound := bind n.bound handle name }
  := by
  obtain ⟨rfl, rfl, handle', hmem⟩ | ⟨rfl, hnew, hsorted, b, hnames⟩ := h.sorted.namehandle_cases hcall
  · have hbound := (h.mem _ _).mp hmem
    have hne : n.bound name ≠ none := by
      rw [hbound]
      exact nofun
    rw [bind, if_neg hne]
    exact ⟨iff_of_true rfl hne, fun _ => rfl, h⟩
  · have hnone : n.bound name = none := by
      apply Option.eq_none_iff_forall_ne_some.mpr
      intro handle' hbound
      exact hnew handle' ((h.mem _ _).mpr hbound)
    refine ⟨iff_of_false nofun fun hne => hne hnone, nofun, hsorted, ?_⟩
    intro name' handle'
    dsimp only
    have hsplit : (⟨name', handle'⟩ : HandleName) ∈ s'.names ↔
        (⟨name', handle'⟩ : HandleName) = ⟨name, handle⟩ ∨ ⟨name', handle'⟩ ∈ n.storage.names := by
      rw [hnames, List.mem_append, List.mem_cons, or_left_comm, ← List.mem_append, List.take_append_drop]
    rw [hsplit, h.mem, bind, if_pos hnone]
    rcases eq_or_ne name' name with rfl | hname
    · rw [Function.update_self, hnone]
      simp [eq_comm]
    · rw [Function.update_of_ne hname]
      simp [hname]

theorem Stands.retire (h : Stands n) (handle : ℕ) :
  Stands { n with
    storage := (n.storage.retire n.handleOf handle).2
    bound := if (n.storage.retire n.handleOf handle).1.isSome then unbind n.bound handle else n.bound }
  := by
  have hnames := HandleStorage.names_retire n.storage n.handleOf handle
  cases hfound : (n.storage.retire n.handleOf handle).1.isSome with
  | false =>
      rw [hfound, if_neg nofun] at hnames
      rw [if_neg nofun]
      constructor
      · dsimp only
        rw [HandleStorage.Sorted, hnames]
        exact h.sorted
      · intro name handle'
        dsimp only
        rw [hnames]
        exact h.mem name handle'
  | true =>
      rw [hfound, if_pos rfl] at hnames
      rw [if_pos rfl]
      constructor
      · dsimp only
        rw [HandleStorage.Sorted, hnames]
        exact h.sorted.filter _
      · intro name handle'
        dsimp only
        rw [hnames, List.mem_filter, h.mem, unbind]
        rw [decide_eq_true_eq]
        split
        · next hbound =>
            rw [hbound]
            simp [eq_comm]
        · next hbound =>
            constructor
            · exact And.left
            · intro hbound'
              refine ⟨hbound', ?_⟩
              rintro rfl
              exact hbound hbound'

theorem Stands.step (h : Stands n) {call : Call} (hstep : n.step call = some n') :
  Stands n'
  := by
  cases call with
  | namehandle handle name =>
      obtain ⟨⟨result, s'⟩, hcall, rfl⟩ := Option.map_eq_some_iff.mp hstep
      exact (h.namehandle hcall).2.2
  | retire handle =>
      obtain rfl := Option.some.inj hstep
      exact h.retire handle
  | findname name =>
      obtain rfl := Option.some.inj hstep
      exact h
  | register ctx =>
      rw [Names.step] at hstep
      split at hstep
      · next handle storage hregister =>
          obtain rfl := Option.some.inj hstep
          have hnames := HandleStorage.names_register n.handleOf ctx hregister
          constructor
          · dsimp only
            rw [HandleStorage.Sorted, hnames]
            exact h.sorted
          · intro name handle'
            dsimp only
            rw [hnames]
            exact h.mem name handle'
      · cases hstep
  | assign ctx handle =>
      obtain rfl := Option.some.inj hstep
      exact ⟨h.sorted, h.mem⟩

theorem stands_of_reachable (h : machine.Reachable n) :
  Stands n
  := by
  apply Machine.invariant _ _ h
  · rintro _ ⟨harbor, rfl⟩
    exact stands_start harbor
  · intro s call s' hs _ hstep
    exact hs.step hstep

end Stands

/-- In any run, the names are in strictly ascending order, and the array stands for the map: a name is found
if it is bound, it is refused if it is bound, and then nothing changes, and retiring a handle that a service
has takes out its names and keeps the others in order, while retiring another changes nothing. -/
theorem names_refine_map {n : Names} (h : machine.Reachable n) :
  n.storage.Sorted ∧
  (∀ name handle, handle ≠ 0 → (n.storage.findname name = handle ↔ n.bound name = some handle)) ∧
  (∀ name handle result s', n.storage.namehandle handle name = some (result, s') →
    (result = none ↔ n.bound name ≠ none) ∧ (result = none → s' = n.storage)) ∧
  (∀ handle, (n.storage.retire n.handleOf handle).2.names =
    if (n.storage.retire n.handleOf handle).1.isSome then
      n.storage.names.filter fun entry => entry.handle ≠ handle
    else n.storage.names) ∧
  ∀ name handle, ⟨name, handle⟩ ∈ n.storage.names ↔ n.bound name = some handle
  := by
  have hstands := stands_of_reachable h
  refine ⟨hstands.sorted, ?_, ?_, HandleStorage.names_retire n.storage n.handleOf, hstands.mem⟩
  · intro name handle hne
    rw [hstands.findname]
    cases n.bound name with
    | none => exact iff_of_false (Ne.symm hne) nofun
    | some handle' => exact (Option.some.injEq handle' handle).symm ▸ Iff.rfl
  · intro name handle result s' hcall
    obtain ⟨hresult, hsame, -⟩ := hstands.namehandle hcall
    exact ⟨hresult, hsame⟩

theorem names_refine_map_once :
  ∃ n, machine.exec (start 1) [.register 0, .assign 0 0x1000001, .namehandle 0x1000001 [98],
      .namehandle 0x1000001 [97], .namehandle 7 [99], .retire 0x1000001] = some n ∧
    n.storage.names = [⟨[99], 7⟩] ∧ n.storage.Sorted ∧
    (n.storage.findname [99] = 7 ↔ n.bound [99] = some 7)
  := by
  have hnames : (machine.exec (start 1) [.register 0, .assign 0 0x1000001, .namehandle 0x1000001 [98],
      .namehandle 0x1000001 [97], .namehandle 7 [99], .retire 0x1000001]).map (fun n => n.storage.names)
      = some [⟨[99], 7⟩] := by
    decide +kernel
  obtain ⟨n, hn, hnames⟩ := Option.map_eq_some_iff.mp hnames
  have hstart : machine.Reachable (start 1) := .init ⟨1, rfl⟩
  have hreachable := Machine.Reachable.exec _ hstart hn
  obtain ⟨hsorted, hfind, -⟩ := names_refine_map hreachable
  exact ⟨n, hn, hnames, hsorted, hfind [99] 7 (by decide)⟩

/-- A name that is bound to a handle no service has is still found after `skynet_handle_retire` has been called
with the handle; and 0 is found for a name that is not bound to 0. -/
theorem name_kept :
  (∃ n, machine.exec (start 1) [.namehandle 5 [97], .retire 5] = some n ∧
    n.storage.findname [97] = 5 ∧ n.storage.names = [⟨[97], 5⟩]) ∧
  (start 1).storage.findname [97] = 0 ∧ (start 1).storage.names = []
  := by
  have hkept : (machine.exec (start 1) [.namehandle 5 [97], .retire 5]).map
      (fun n => (n.storage.findname [97], n.storage.names)) = some (5, [⟨[97], 5⟩]) := by
    decide +kernel
  obtain ⟨n, hn, hkept⟩ := Option.map_eq_some_iff.mp hkept
  obtain ⟨hfind, hnames⟩ := Prod.mk.inj hkept
  exact ⟨⟨n, hn, hfind, hnames⟩, by decide +kernel, rfl⟩

end Names

end Skynet
