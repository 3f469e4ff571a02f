import FWServer.Kernel.Machine
import FWServer.Skynet.HandleStorage

/-!
# Services and their handles

Any number of threads create, retire and look up services.  A thread that creates a service registers its
context, and only then stores the handle in it (`skynet_context_new` in `skynet-src/skynet_server.c`); in
between, other threads see a context whose handle is still 0.  Each locked function of the table of handles is
one step, and so is the store.

If the table is doubled while such a context is in it, the context is put where 0 belongs.
-/

namespace Skynet

/-- Where a context is in its life.  A context that is registered has been given a handle, which the thread
that creates it has yet to store. -/
inductive Life where
  | unborn
  | registered (handle : ℕ)
  | live (handle : ℕ)
  | retired (handle : ℕ)
  deriving DecidableEq

/-- The handle of a context in the table. -/
def Life.key : Life → ℕ
  | .registered handle => handle
  | .live handle => handle
  | _ => 0

/-- Whether a context is in the table. -/
def Life.listed : Life → Bool
  | .registered _ => true
  | .live _ => true
  | _ => false

/-- The table, the fields `handle` of the contexts, the lives of the contexts, and whether the assertion of the
table growth has failed. -/
structure Registry where
  storage : HandleStorage
  handle : ℕ → ℕ
  life : ℕ → Life
  aborted : Bool

namespace Registry

/-- The steps of the threads. -/
inductive Step where
  | register (ctx : ℕ)
  | assign (ctx : ℕ)
  | retire (handle : ℕ)
  | grab (handle : ℕ)
  deriving DecidableEq

/-- `ctx->handle = 0; skynet_handle_register(ctx)`, for a new context -/
def register (r : Registry) (ctx : ℕ) : Option Registry :=
  let handleOf := Function.update r.handle ctx 0
  match r.storage.register handleOf ctx with
  | .ok (handle, storage) =>
      some { r with
        storage := storage
        handle := handleOf
        life := Function.update r.life ctx (.registered handle) }
  | .error .collided => some { r with aborted := true }
  | .error .full => none

/-- `ctx->handle = …`, with the handle that was returned -/
def assign (r : Registry) (ctx handle : ℕ) : Registry :=
  { r with
    handle := Function.update r.handle ctx handle
    life := Function.update r.life ctx (.live handle) }

/-- `skynet_handle_retire`; whatever has the handle is retired by that. -/
def retire (r : Registry) (handle : ℕ) : Registry :=
  { r with
    storage := (r.storage.retire r.handle handle).2
    life := fun ctx => if r.life ctx = .live handle then .retired handle else r.life ctx }

/-- The context `skynet_handle_grab` returns. -/
def find (r : Registry) (handle : ℕ) : Option ℕ :=
  r.storage.grab r.handle handle

def step (r : Registry) (l : Step) : Option Registry :=
  if r.aborted then none
  else match l with
    | .register ctx =>
        match r.life ctx with
        | .unborn => r.register ctx
        | _ => none
    | .assign ctx =>
        match r.life ctx with
        | .registered handle => some (r.assign ctx handle)
        | _ => none
    | .retire handle => some (r.retire handle)
    | .grab _ => some r

/-- The registry of a node that has been started. -/
def start (harbor : ℕ) : Registry where
  storage := .init harbor
  handle _ := 0
  life _ := .unborn
  aborted := false

/-- All interleavings. -/
def machine : Machine Registry Step where
  init r := ∃ harbor, r = start harbor
  step := step

/-! ### What is to hold -/

/-- A context is found under its handle from the time the handle has been stored in it until it is retired, and
never after that; live contexts have different handles, each in the slot of its handle; and the assertion has
not failed. -/
structure Consistent (r : Registry) : Prop where
  findable : ∀ ctx handle, r.life ctx = .live handle → r.find handle = some ctx
  gone : ∀ ctx handle, r.life ctx = .retired handle → ∀ h, r.find h ≠ some ctx
  distinct : ∀ ctx ctx' handle, r.life ctx = .live handle → r.life ctx' = .live handle → ctx = ctx'
  slot : ∀ i ctx handle, i < r.storage.slotSize → r.storage.slot i = some ctx → r.life ctx = .live handle →
    r.handle ctx &&& (r.storage.slotSize - 1) = i
  asserted : r.aborted = false

/-- A step is harmless: when a registration finds every slot taken, the contexts that have not been given their
handles belong where 0 does in the table of twice the size; and when 0 is retired, the context in its slot has
been given its handle. -/
def Harmless (r : Registry) : Step → Prop
  | .register _ => (∀ i, i < r.storage.slotSize → r.storage.slot i ≠ none) →
      ∀ i ctx handle, r.storage.slot i = some ctx → r.life ctx = .registered handle →
        handle % (r.storage.slotSize * 2) = 0
  | .retire handle => handle = 0 →
      ∀ ctx handle', r.storage.slot 0 = some ctx → r.life ctx ≠ .registered handle'
  | _ => True

/-- The table consists of the contexts that are registered or live, and these have the handles they have been
given. -/
structure Good (r : Registry) : Prop where
  table : Residues (fun ctx => (r.life ctx).key) (fun ctx => (r.life ctx).listed = true)
    r.storage.slotSize r.storage.slot
  registered : ∀ ctx handle, r.life ctx = .registered handle → r.handle ctx = 0
  live : ∀ ctx handle, r.life ctx = .live handle → r.handle ctx = handle
  asserted : r.aborted = false

section Good

variable {r r' : Registry}

theorem good_start (harbor : ℕ) :
  Good (start harbor)
  := by
  constructor
  · exact fun _ _ => iff_of_false nofun fun h => nomatch h.1
  · exact fun _ _ h => nomatch h
  · exact fun _ _ h => nomatch h
  · rfl

theorem Good.slot_iff (h : Good r) (i ctx : ℕ) :
  r.storage.slot i = some ctx ↔ (r.life ctx).listed = true ∧ (r.life ctx).key % r.storage.slotSize = i
  := h.table i ctx

theorem Good.slot_of_live (h : Good r) {ctx handle : ℕ} (hlive : r.life ctx = .live handle) :
  r.storage.slot (r.storage.hash handle) = some ctx
  := by
  rw [HandleStorage.hash_eq_mod, h.slot_iff, hlive]
  exact ⟨rfl, rfl⟩

theorem Good.consistent (h : Good r) :
  Consistent r
  := by
  constructor
  · intro ctx handle hlive
    exact HandleStorage.grab_eq_some.mpr ⟨h.slot_of_live hlive, h.live ctx handle hlive⟩
  · intro ctx handle hretired handle' hfind
    obtain ⟨hslot, -⟩ := HandleStorage.grab_eq_some.mp hfind
    rw [h.slot_iff, hretired] at hslot
    cases hslot.1
  · intro ctx ctx' handle hlive hlive'
    have hslot := h.slot_of_live hlive
    rw [h.slot_of_live hlive'] at hslot
    exact (Option.some.inj hslot).symm
  · intro i ctx handle _ hslot hlive
    rw [h.slot_iff, hlive] at hslot
    rw [h.live ctx handle hlive]
    exact (HandleStorage.hash_eq_mod _ _).trans hslot.2
  · exact h.asserted

/-- When the table is doubled, its contexts have handles for the slots in which they belong. -/
theorem Good.handle_eq (h : Good r) {ctx : ℕ} (hctx : r.life ctx = .unborn) (hok : Harmless r (.register ctx))
    (hfull : ∀ i, i < r.storage.slotSize → r.storage.slot i ≠ none) {c : ℕ} (hc : (r.life c).listed = true) :
  Function.update r.handle ctx 0 c % (r.storage.slotSize * 2) = (r.life c).key % (r.storage.slotSize * 2)
  := by
  have hne : c ≠ ctx := by
    rintro rfl
    rw [hctx] at hc
    cases hc
  rw [Function.update_of_ne hne]
  cases hlife : r.life c with
  | unborn =>
      rw [hlife] at hc
      cases hc
  | retired handle =>
      rw [hlife] at hc
      cases hc
  | live handle =>
      rw [h.live c handle hlife]
      rfl
  | registered handle =>
      have hslot := h.table.slot_eq hc
      rw [h.registered c handle hlife, Nat.zero_mod]
      exact (hok hfull _ c handle hslot hlife).symm

/-- Registering a context keeps the table in order. -/
theorem Good.register (h : Good r) {ctx : ℕ} (hctx : r.life ctx = .unborn) (hok : Harmless r (.register ctx))
    (hstep : r.register ctx = some r') :
  Good r'
  := by
  have hnot : ¬ (r.life ctx).listed = true := by
    rw [hctx]
    exact nofun
  have hspec : r.storage.register (Function.update r.handle ctx 0) ctx = .error .full ∨
      ∃ handle s, r.storage.register (Function.update r.handle ctx 0) ctx = .ok (handle, s) ∧
        Residues (Function.update (fun c => (r.life c).key) ctx handle)
          (fun c => c = ctx ∨ (r.life c).listed = true) s.slotSize s.slot := by
    apply HandleStorage.register_spec h.table _ hnot
    exact fun hfull c hc => h.handle_eq hctx hok hfull hc
  rw [Registry.register] at hstep
  obtain hfull | ⟨handle, storage, hregister, hresidues⟩ := hspec
  · rw [hfull] at hstep
    cases hstep
  · rw [hregister] at hstep
    obtain rfl := Option.some.inj hstep
    constructor
    · apply hresidues.congr
      · intro c
        dsimp only
        rcases eq_or_ne c ctx with rfl | hc
        · rw [Function.update_self]
          exact iff_of_true rfl (.inl rfl)
        · rw [Function.update_of_ne hc]
          exact (or_iff_right hc).symm
      · intro c _
        dsimp only
        rcases eq_or_ne c ctx with rfl | hc
        · rw [Function.update_self, Function.update_self]
          rfl
        · rw [Function.update_of_ne hc, Function.update_of_ne hc]
    · intro c handle' hc
      rcases eq_or_ne c ctx with rfl | hne
      · exact Function.update_self _ _ _
      · dsimp only at hc ⊢
        rw [Function.update_of_ne hne] at hc ⊢
        exact h.registered c handle' hc
    · intro c handle' hc
      rcases eq_or_ne c ctx with rfl | hne
      · dsimp only at hc
        rw [Function.update_self] at hc
        cases hc
      · dsimp only at hc ⊢
        rw [Function.update_of_ne hne] at hc ⊢
        exact h.live c handle' hc
    · exact h.asserted

/-- A context that is given its handle stays in its slot. -/
theorem Good.assign (h : Good r) {ctx handle : ℕ} (hctx : r.life ctx = .registered handle) :
  Good (r.assign ctx handle)
  := by
  constructor
  · apply h.table.congr
    · intro c
      dsimp only [Registry.assign]
      rcases eq_or_ne c ctx with rfl | hc
      · rw [Function.update_self, hctx]
        exact Iff.rfl
      · rw [Function.update_of_ne hc]
    · intro c _
      dsimp only [Registry.assign]
      rcases eq_or_ne c ctx with rfl | hc
      · rw [Function.update_self, hctx]
        rfl
      · rw [Function.update_of_ne hc]
  · intro c handle' hc
    dsimp only [Registry.assign] at hc ⊢
    rcases eq_or_ne c ctx with rfl | hne
    · rw [Function.update_self] at hc
      cases hc
    · rw [Function.update_of_ne hne] at hc ⊢
      exact h.registered c handle' hc
  · intro c handle' hc
    dsimp only [Registry.assign] at hc ⊢
    rcases eq_or_ne c ctx with rfl | hne
    · rw [Function.update_self] at hc ⊢
      exact Life.live.inj hc
    · rw [Function.update_of_ne hne] at hc ⊢
      exact h.live c handle' hc
  · exact h.asserted

theorem retire_life (r : Registry) (handle ctx : ℕ) :
  (r.retire handle).life ctx = if r.life ctx = .live handle then .retired handle else r.life ctx
  := rfl

/-- Only a live context is found under a handle, unless it is 0. -/
theorem Good.life_of_find (h : Good r) {handle ctx : ℕ} (hok : Harmless r (.retire handle))
    (hfind : r.find handle = some ctx) :
  r.life ctx = .live handle
  := by
  obtain ⟨hslot, hhandle⟩ := HandleStorage.grab_eq_some.mp hfind
  have hlisted := ((h.slot_iff _ _).mp hslot).1
  cases hlife : r.life ctx with
  | unborn =>
      rw [hlife] at hlisted
      cases hlisted
  | retired handle' =>
      rw [hlife] at hlisted
      cases hlisted
  | live handle' =>
      rw [h.live ctx handle' hlife] at hhandle
      rw [hhandle]
  | registered handle' =>
      have hzero : handle = 0 := hhandle.symm.trans (h.registered ctx handle' hlife)
      subst hzero
      have hhash : r.storage.hash 0 = 0 := Nat.zero_and _
      rw [hhash] at hslot
      exact absurd hlife (hok rfl ctx handle' hslot)

/-- Retiring a handle takes out the context that has it. -/
theorem Good.retire (h : Good r) {handle : ℕ} (hok : Harmless r (.retire handle)) :
  Good (r.retire handle)
  := by
  obtain ⟨-, hbits, hslot⟩ := HandleStorage.retire_slot r.storage r.handle handle
  have hsize : (r.retire handle).storage.slotSize = r.storage.slotSize := congrArg (2 ^ ·) hbits
  have hregistered : ∀ ctx handle', (r.retire handle).life ctx = .registered handle' →
      r.life ctx = .registered handle' := by
    intro ctx handle' hlife
    rw [retire_life] at hlife
    split at hlife
    · cases hlife
    · exact hlife
  have hlive : ∀ ctx handle', (r.retire handle).life ctx = .live handle' →
      r.life ctx = .live handle' := by
    intro ctx handle' hlife
    rw [retire_life] at hlife
    split at hlife
    · cases hlife
    · exact hlife
  refine ⟨?_, fun ctx handle' hc => h.registered ctx handle' (hregistered ctx handle' hc),
    fun ctx handle' hc => h.live ctx handle' (hlive ctx handle' hc), h.asserted⟩
  rw [hsize]
  cases hfind : r.find handle with
  | none =>
      have hsame : (r.retire handle).storage.slot = r.storage.slot := by
        have hgrab : r.storage.grab r.handle handle = none := hfind
        rw [hgrab] at hslot
        exact hslot
      have hlife : ∀ ctx, (r.retire handle).life ctx = r.life ctx := by
        intro ctx
        rw [retire_life, if_neg]
        intro hctx
        rw [h.consistent.findable ctx handle hctx] at hfind
        cases hfind
      rw [hsame]
      exact h.table.congr (fun ctx => by rw [hlife]) fun ctx _ => by rw [hlife]
  | some ctx =>
      have hctx := h.life_of_find hok hfind
      have herased : (r.retire handle).storage.slot
          = Function.update r.storage.slot ((r.life ctx).key % r.storage.slotSize) none := by
        have hgrab : r.storage.grab r.handle handle = some ctx := hfind
        rw [hgrab, HandleStorage.hash_eq_mod] at hslot
        rw [hctx]
        exact hslot
      have hlisted : (r.life ctx).listed = true := by
        rw [hctx]
        rfl
      have hother : ∀ c, c ≠ ctx → (r.retire handle).life c = r.life c := by
        intro c hc
        rw [retire_life, if_neg]
        intro hlive
        exact hc (h.consistent.distinct c ctx handle hlive hctx)
      have hself : (r.retire handle).life ctx = .retired handle := by rw [retire_life, if_pos hctx]
      rw [herased]
      apply (h.table.erase hlisted).congr
      · intro c
        rcases eq_or_ne c ctx with rfl | hc
        · rw [hself]
          exact iff_of_false nofun fun hand => hand.2 rfl
        · rw [hother c hc]
          exact (and_iff_left hc).symm
      · intro c hc
        rw [hother c hc.2]

/-- What a step does. -/
theorem step_cases {l : Step} (h : r.step l = some r') :
  (∃ ctx, l = .register ctx ∧ r.life ctx = .unborn ∧ r.register ctx = some r') ∨
  (∃ ctx handle, l = .assign ctx ∧ r.life ctx = .registered handle ∧ r' = r.assign ctx handle) ∨
  (∃ handle, l = .retire handle ∧ r' = r.retire handle) ∨
  ∃ handle, l = .grab handle ∧ r' = r
  := by
  unfold step at h
  split at h
  · cases h
  · cases l with
    | register ctx =>
        dsimp only at h
        split at h
        · next hlife => exact .inl ⟨ctx, rfl, hlife, h⟩
        · cases h
    | assign ctx =>
        dsimp only at h
        split at h
        · next handle hlife => exact .inr (.inl ⟨ctx, handle, rfl, hlife, (Option.some.inj h).symm⟩)
        · cases h
    | retire handle => exact .inr (.inr (.inl ⟨handle, rfl, (Option.some.inj h).symm⟩))
    | grab handle => exact .inr (.inr (.inr ⟨handle, rfl, (Option.some.inj h).symm⟩))

/-- A harmless step keeps the table in order. -/
theorem Good.step (h : Good r) {l : Step} (hok : Harmless r l) (hstep : r.step l = some r') :
  Good r'
  := by
  obtain ⟨ctx, rfl, hlife, hstep⟩ | ⟨ctx, handle, rfl, hlife, rfl⟩ | ⟨handle, rfl, rfl⟩ |
    ⟨handle, rfl, rfl⟩ := step_cases hstep
  · exact h.register hlife hok hstep
  · exact h.assign hlife
  · exact h.retire hok
  · exact h

end Good

/-- As long as all steps are harmless, services are found under their handles while they are live, and the table
is never grown into a slot that is taken. -/
theorem found_while_live {r : Registry} (h : machine.Reaches Harmless r) :
  Consistent r
  := by
  apply Good.consistent
  apply Machine.invariant _ _ h
  · rintro _ ⟨harbor, rfl⟩
    exact good_start harbor
  · intro s l s' hs hok hstep
    exact hs.step hok hstep

/-- Every context in the table has been given its handle. -/
def Settled (r : Registry) : Prop :=
  ∀ ctx handle, r.life ctx ≠ .registered handle

/-- Contexts that are registered one after the other, each of which is given its handle at once. -/
def services (ctxs : List ℕ) : List Step :=
  ctxs.flatMap fun ctx => [.register ctx, .assign ctx]

theorem Settled.harmless {r : Registry} (h : Settled r) (l : Step) :
  Harmless r l
  := by
  cases l with
  | register ctx => exact fun _ _ ctx' handle _ hlife => absurd hlife (h ctx' handle)
  | retire handle => exact fun _ ctx' handle' _ => h ctx' handle'
  | _ => trivial

/-- A context that is registered is the only one that waits for its handle. -/
theorem Settled.register {r r' : Registry} (h : Settled r) {ctx : ℕ} (hregister : r.register ctx = some r')
    {ctx' handle : ℕ} (hlife : r'.life ctx' = .registered handle) :
  ctx' = ctx
  := by
  by_contra hne
  apply h ctx' handle
  unfold Registry.register at hregister
  dsimp only at hregister
  split at hregister
  · rw [← Option.some.inj hregister] at hlife
    dsimp only at hlife
    rwa [Function.update_of_ne hne] at hlife
  · rwa [← Option.some.inj hregister] at hlife
  · cases hregister

theorem Settled.assign {r : Registry} {ctx : ℕ} (h : ∀ ctx' handle, r.life ctx' = .registered handle → ctx' = ctx)
    (handle : ℕ) :
  Settled (r.assign ctx handle)
  := by
  intro ctx' handle' hlife
  dsimp only [Registry.assign] at hlife
  rcases eq_or_ne ctx' ctx with rfl | hne
  · rw [Function.update_self] at hlife
    cases hlife
  · rw [Function.update_of_ne hne] at hlife
    exact hne (h ctx' handle' hlife)

theorem Settled.retire {r : Registry} (h : Settled r) (handle : ℕ) :
  Settled (r.retire handle)
  := by
  intro ctx handle' hlife
  dsimp only [Registry.retire] at hlife
  split at hlife
  · cases hlife
  · exact h ctx handle' hlife

theorem Settled.services_harmless {r : Registry} (h : Settled r) (ctxs : List ℕ) {rest : List Step}
    (hrest : ∀ r', Settled r' → machine.Guarded Harmless r' rest) :
  machine.Guarded Harmless r (services ctxs ++ rest)
  := by
  induction ctxs generalizing r with
  | nil => exact hrest r h
  | cons ctx ctxs ih =>
      intro r₁ (hregister : r.step (.register ctx) = some r₁)
      refine ⟨h.harmless _, fun r₂ (hassign : r₁.step (.assign ctx) = some r₂) => ⟨trivial, ?_⟩⟩
      obtain ⟨_, heq, -, hregister⟩ | ⟨_, _, heq, -⟩ | ⟨_, heq, -⟩ | ⟨_, heq, -⟩ := step_cases hregister <;> cases heq
      obtain ⟨_, heq, -⟩ | ⟨_, handle, heq, -, rfl⟩ | ⟨_, heq, -⟩ | ⟨_, heq, -⟩ := step_cases hassign <;> cases heq
      exact ih (Settled.assign (fun ctx' handle hlife => h.register hregister hlife) handle)

/-- Five services are registered, for which the table is doubled, then the first one is retired. -/
def fiveServices : List Step :=
  services [0, 1, 2, 3, 4] ++ [.retire 0x1000001, .register 5, .assign 5]

theorem fiveServices_harmless :
  machine.Guarded Harmless (start 1) fiveServices
  := by
  have hstart : Settled (start 1) := fun ctx handle hlife => by cases hlife
  apply hstart.services_harmless
  intro r hr r' (hretire : r.step (.retire 0x1000001) = some r')
  refine ⟨hr.harmless _, fun r'' _ => ⟨?_, fun _ _ => ⟨trivial, trivial⟩⟩⟩
  obtain ⟨_, heq, -⟩ | ⟨_, _, heq, -⟩ | ⟨_, heq, rfl⟩ | ⟨_, heq, -⟩ := step_cases hretire <;> cases heq
  exact (hr.retire 0x1000001).harmless _

theorem found_while_live_five :
  ∃ r, machine.exec (start 1) fiveServices = some r ∧ r.storage.slotSize = 8 ∧
    r.life 0 = .retired 0x1000001 ∧ r.life 5 = .live 0x1000006 ∧ Consistent r
  := by
  have hlives : (machine.exec (start 1) fiveServices).map (fun r => (r.storage.slotSize, r.life 0, r.life 5))
      = some (8, .retired 0x1000001, .live 0x1000006) := by
    decide +kernel
  obtain ⟨r, hr, hlives⟩ := Option.map_eq_some_iff.mp hlives
  obtain ⟨hsize, hlives⟩ := Prod.mk.inj hlives
  obtain ⟨hretired, hlive⟩ := Prod.mk.inj hlives
  have hstart : machine.Reaches Harmless (start 1) := .init ⟨1, rfl⟩
  have hreaches := Machine.Reaches.exec _ hstart fiveServices_harmless hr
  exact ⟨r, hr, hsize, hretired, hlive, found_while_live hreaches⟩

/-- A service whose handle has not been stored yet is lost when four others are registered meanwhile, and the
assertion fails if there are two of them. -/
theorem lost_when_grown :
  (∃ r, machine.Reachable r ∧ ¬ Consistent r ∧ r.life 0 = .live 0x1000001 ∧ r.find 0x1000001 = none) ∧
  ∃ r, machine.Reachable r ∧ ¬ Consistent r ∧ r.aborted = true
  := by
  have hlost : (machine.exec (start 1) [.register 0, .register 1, .assign 1, .register 2, .assign 2,
      .register 3, .assign 3, .register 4, .assign 0]).map (fun r => (r.life 0, r.find 0x1000001))
      = some (.live 0x1000001, none) := by
    decide +kernel
  have haborted : (machine.exec (start 1) [.register 0, .register 1, .register 2, .register 3,
      .register 4]).map (fun r => r.aborted) = some true := by
    decide +kernel
  constructor
  · obtain ⟨r, hr, hlife⟩ := Option.map_eq_some_iff.mp hlost
    obtain ⟨hlive, hfind⟩ := Prod.mk.inj hlife
    have hreachable : machine.Reachable r := Machine.Reachable.exec _ (.init ⟨1, rfl⟩) hr
    refine ⟨r, hreachable, ?_, hlive, hfind⟩
    intro h
    rw [h.findable 0 _ hlive] at hfind
    cases hfind
  · obtain ⟨r, hr, haborted⟩ := Option.map_eq_some_iff.mp haborted
    have hreachable : machine.Reachable r := Machine.Reachable.exec _ (.init ⟨1, rfl⟩) hr
    refine ⟨r, hreachable, ?_, haborted⟩
    intro h
    rw [h.asserted] at haborted
    cases haborted

end Registry

end Skynet
