import FWServer.Db.RoomRecord
import FWServer.Kernel.Claims

/-!
# Room ids

Any number of calls of `createRoomRecord`, interleaved at their calls of the services.  That a number is
free is tested by one call and relied on by two later ones, so two rooms get one id when another call
creates a room in between.  And as `insert` caches the table of the defaults itself, every room that is
created takes over the record of the one created before.
-/

open Lua DbCache DbRedis Backend
open Script (ofReply)

namespace Database.RoomRecord

/-- The calls of `createRoomRecord` over the services. -/
def rooms (json : Cjson) : Plant Script.interface Unit Backend.State Job ℕ Room :=
  plant json fun j => createRoomRecord j.userId j.draws

/-- No call has been made yet, and the tables of the cached rooms are there. -/
structure Quiet (s : Scripts Job Room) : Prop where
  uncalled : Uncalled s
  ended : s.ended = []
  allocated : Allocated (s.process ())

/-- The ids that have been returned, newest first. -/
def roomIds (s : Scripts Job Room) : List RoomId :=
  s.ended.filterMap fun e =>
    match e.2 with
    | .returned room => some room.2
    | .raised _ => none

/-- There is a record of the room `key`, in the cache or in redis. -/
def Exists (s : Scripts Job Room) (key : Value) : Prop :=
  (record (s.process ()) .room key).isSome ∨ key.tostring ∈ s.network.db .room

/-- A number that a call has found free is still free when the call goes on: it is not cached when the
answer to the test arrives, and redis has no record of it when it stores the one inserted. -/
def Apart (s : Scripts Job Room) : Plant.Step Job ℕ → Prop
  | .start _ => True
  | .event h => ∀ r key text, s.network.running h = some r → r.request.cmd = .insert .room key →
      r.query = .hmset .room key.tostring text → key.tostring ∉ s.network.db .room
  | .wake n => ∀ t h key rtab w, s.waiting n = some t → t.query = .redis h (.query .room key) →
      collect n s.network = some (.ok rtab, w) → rtab.tabs = [] → record (s.process ()) .room key = none

/-- A record that a test has found is not cached yet, and no cached room has the table of the defaults
when another one is inserted. -/
def Unshared (s : Scripts Job Room) : Plant.Step Job ℕ → Prop
  | .start _ => True
  | .event _ => True
  | .wake n =>
      (∀ t h key rtab w, s.waiting n = some t → t.query = .redis h (.query .room key) →
        collect n s.network = some (.ok rtab, w) →
        ∀ found ∈ rtab.tabs, record (s.process ()) .room (found.get (dbtable .room).pkey) = none) ∧
      ∀ t h key, s.waiting n = some t → t.query = .redis h (.insert .room key) →
        ∀ key', record (s.process ()) .room key' ≠ some (.static .room)

/-- The step is one of the call `n`, or of a service that works for it. -/
def Of (s : Scripts Job Room) (n : ℕ) : Plant.Step Job ℕ → Prop
  | .start _ => s.fresh = n
  | .event h => ∃ cmd rest, load s.network h = ⟨n, cmd⟩ :: rest
  | .wake m => m = n

/-- The call that was started in the state `s₁` is updating the room `key`, which did not exist then and
which no call has returned. -/
structure Own (s₁ s : Scripts Job Room) (key : Value) : Prop where
  updating : ∃ t h rectab, s.waiting s₁.fresh = some t ∧ t.query = .redis h (.update .room rectab) ∧
    rectab.get (dbtable .room).pkey = key
  absent : ¬ Exists s₁ key
  unreturned : ∀ x ∈ roomIds s, x.key ≠ key

/-- From `s` to `s'` no room record changes, in the cache or in redis, unless it is the own one of the call
that was started in `s₁`. -/
structure Spared (s₁ s s' : Scripts Job Room) : Prop where
  cache : ∀ key rectab, record (s.process ()) .room key = some rectab →
    (record (s'.process ()) .room key = some rectab ∧
      (s'.process ()).deref rectab = (s.process ()).deref rectab) ∨ Own s₁ s key
  redis : ∀ f text, (s.network.db .room).lookup f = some text →
    (s'.network.db .room).lookup f = some text ∨ ∃ key : Value, f = key.tostring ∧ Own s₁ s key

/-! ### What a call does when it is resumed -/

/-- The call `n` that waits as `t` goes on from the state `p` of the scripts to `p'`, where it halts. -/
inductive Goes (c : Claims RoomId) (n : ℕ) (t : Waiting Script.interface Job Room)
    (r : Except String Answer) (p p' : Script.State) (halt : Coroutine.Halt Script.interface Room) : Prop
  | tested {h : ℕ} {x : RoomId} (hquery : t.query = .redis h (.query .room x.key))
      (hheld : c.held n = none) (hhalt : Seeking t.job p halt)
      (hsteady : Steady (fun key => ∃ rtab ∈ foundIn r, key = rtab.get (dbtable .room).pkey) p p')
      (hsole : ∀ y, Sole y p → (∀ rtab ∈ foundIn r, rtab.get (dbtable .room).pkey ≠ y.key) → Sole y p')
  | refused {h : ℕ} {x : RoomId} {e : String} (hquery : t.query = .redis h (.insert .room x.key))
      (hheld : c.held n = none) (hhalt : halt = .raised e) (hsame : p' = p)
  | created {h : ℕ} {x : RoomId} (hquery : t.query = .redis h (.insert .room x.key))
      (hheld : c.held n = none) (hhalt : Creating t.job x halt) (hnone : record p .room x.key = none)
      (hcached : record p' .room x.key = some (.static .room))
      (hsteady : Steady (fun key => record p .room key = some (.static .room)) p p')
      (hsole : (∀ key, record p .room key ≠ some (.static .room)) → Sole x p')
      (hkeyed : ∀ h' rectab k, halt = .waiting (.redis h' (.update .room rectab)) k →
        rectab.get (dbtable .room).pkey = x.key)
  | held {h : ℕ} {rectab : Table} {x : RoomId} (hquery : t.query = .redis h (.update .room rectab))
      (hheld : c.held n = some x) (hhalt : Creating t.job x halt)
      (hsteady : Steady (fun key => record p .room key = record p .room x.key) p p')
      (hsole : ∀ y, Sole y p → Sole y p')
      (hkeyed : Sole x p → ∀ h' rectab' k, halt = .waiting (.redis h' (.update .room rectab')) k →
        rectab'.get (dbtable .room).pkey = x.key)

/-- The rooms that the calls in progress have created and those that have been returned are claimed. -/
structure Claiming (json : Cjson) (s : Scripts Job Room) (c : Claims RoomId) : Prop where
  routed : Routed json s
  allocated : Allocated (s.process ())
  given : roomIds s = c.given
  cached : ∀ x, c.Taken x → (record (s.process ()) .room x.key).isSome
  waiting : ∀ n t, s.waiting n = some t → ∃ x p, At t.job x t.query t.resumed p ∧
    c.held n = if p.created then some x else none
  idle : ∀ n, s.waiting n = none → c.held n = none

section Step

variable {json : Cjson} {s s' : Scripts Job Room} {c : Claims RoomId} {n : ℕ}

/-- A call that is resumed goes on as its phase says. -/
theorem Claiming.wake (hs : Claiming json s c) (hapart : Apart s (.wake n))
    (hstep : (rooms json).step s (.wake n) = some s') :
  ∃ t r w p' halt, s.waiting n = some t ∧ collect n s.network = some (r, w) ∧
    (t.resumed r).resume (s.process ()) = ⟨[], p', halt⟩ ∧
    s' = (rooms json).run n t.job (t.resumed r) { s with network := w } ∧
    Goes c n t r (s.process ()) p' halt
  := by
  obtain ⟨j, h, -⟩ | ⟨h, w, h, -⟩ | ⟨m, t, r, w, h, ht, hw, hrun⟩ := (rooms json).step_cases hstep
  · cases h
  · cases h
  · obtain rfl := Plant.Step.wake.inj h
    obtain ⟨x, p, hat, hheld⟩ := hs.waiting n t ht
    have hgoes : ∃ p' halt, (t.resumed r).resume (s.process ()) = ⟨[], p', halt⟩ ∧
        Goes c n t r (s.process ()) p' halt := by
      cases p with
      | testing =>
          obtain ⟨h, draws, hquery, hresumed⟩ := hat
          have hfree : ∀ rtab, r = .ok rtab → rtab.tabs = [] →
              record (s.process ()) .room x.key = none := by
            rintro rtab rfl hnil
            exact hapart t h x.key rtab w ht hquery hw hnil
          obtain ⟨p', halt, hresume, hhalt, hsteady, hsole⟩ :=
            testing_resume (s := s.process ()) t.job x draws r hfree
          rw [← hresumed] at hresume
          exact ⟨p', halt, hresume, .tested hquery hheld hhalt hsteady hsole⟩
      | inserting =>
          obtain ⟨h, hquery, hresumed⟩ := hat
          have hr : r = .ok (.value x.key) := by
            obtain ⟨r', hr', heq⟩ := Option.map_eq_some_iff.mp hw
            cases heq
            obtain ⟨⟨t', h', cmd, ht', hquery', hreplies⟩, -⟩ := hs.routed.answered n r hr'
            obtain rfl := Option.some.inj (ht.symm.trans ht')
            obtain ⟨rfl, rfl⟩ := Script.Call.redis.inj (hquery.symm.trans hquery')
            exact hreplies (key_truthy x)
          obtain ⟨p', halt, hresume, ⟨rfl, e, rfl⟩ |
            ⟨hnone, hcached, hhalt, hsteady, hsole, hkeyed⟩⟩ := inserting_resume t.job x h (s.process ())
          · rw [← hr, ← hresumed] at hresume
            exact ⟨_, _, hresume, .refused hquery hheld rfl rfl⟩
          · rw [← hr, ← hresumed] at hresume
            exact ⟨p', halt, hresume, .created hquery hheld hhalt hnone hcached hsteady hsole hkeyed⟩
      | filling =>
          obtain ⟨h, rectab, hquery, -, hresumed⟩ := hat
          obtain ⟨p', halt, hresume, hhalt, hsteady, hsole, hkeyed⟩ :=
            filling_resume t.job x r (s.process ())
          rw [← hresumed] at hresume
          exact ⟨p', halt, hresume, .held hquery hheld hhalt hsteady hsole hkeyed⟩
      | updating =>
          obtain ⟨h, rectab, hquery, hresumed⟩ := hat
          obtain ⟨halt, hresume, hhalt, hend⟩ := updating_resume t.job x r (s.process ())
          rw [← hresumed] at hresume
          refine ⟨s.process (), halt, hresume, .held hquery hheld hhalt (.refl _ _) (fun _ h => h) ?_⟩
          exact fun _ h' rectab' k hwaiting => absurd hwaiting (hend _ _)
    obtain ⟨p', halt, hresume, hgoes⟩ := hgoes
    exact ⟨t, r, w, p', halt, ht, hw, hresume, hrun, hgoes⟩

/-- After a stretch of the call `n`, when only its claim has changed. -/
theorem Claiming.after (hs : Claiming json s c) (hn : n < s.fresh) (hidle : s.waiting n = none) {j : Job}
    {code : Script Room} {p : Script.State} {halt : Coroutine.Halt Script.interface Room}
    (hresume : code.resume (s.process ()) = ⟨[], p, halt⟩)
    (hcached : ∀ key, (record (s.process ()) .room key).isSome → (record p .room key).isSome)
    (hallocated : Allocated p) {c' : Claims RoomId} (hother : ∀ m ≠ n, c'.held m = c.held m)
    (hgiven : roomIds ((rooms json).run n j code s) = c'.given)
    (htaken : ∀ x, c'.Taken x → c.Taken x ∨ (record p .room x.key).isSome)
    (hself : match ((rooms json).run n j code s).waiting n with
      | none => c'.held n = none
      | some t => ∃ x p, At t.job x t.query t.resumed p ∧ c'.held n = if p.created then some x else none) :
  Claiming json ((rooms json).run n j code s) c'
  := by
  have hprocess : ((rooms json).run n j code s).process () = p := by
    rw [Plant.run_process, Function.update_self]
    exact congrArg Coroutine.Stretch.state hresume
  constructor
  · exact hs.routed.run hn hidle j code
  · rw [hprocess]
    exact hallocated
  · exact hgiven
  · intro x hx
    rw [hprocess]
    obtain hx | hx := htaken x hx
    · exact hcached _ (hs.cached x hx)
    · exact hx
  · intro m t ht
    rcases eq_or_ne m n with rfl | hm
    · rw [ht] at hself
      exact hself
    · rw [Plant.run_waiting_of_ne _ _ _ _ _ hm] at ht
      rw [hother m hm]
      exact hs.waiting m t ht
  · intro m hnone
    rcases eq_or_ne m n with rfl | hm
    · rw [hnone] at hself
      exact hself
    · rw [Plant.run_waiting_of_ne _ _ _ _ _ hm] at hnone
      rw [hother m hm]
      exact hs.idle m hnone

section Run

variable {j : Job} {code : Script Room} {p : Script.State}
  {halt : Coroutine.Halt Script.interface Room}

/-- A call that goes on looking for a number claims nothing. -/
theorem Claiming.seek (hs : Claiming json s c) (hn : n < s.fresh) (hidle : s.waiting n = none)
    (hresume : code.resume (s.process ()) = ⟨[], p, halt⟩)
    (hcached : ∀ key, (record (s.process ()) .room key).isSome → (record p .room key).isSome)
    (hallocated : Allocated p) (hhalt : Seeking j (s.process ()) halt) :
  Claiming json ((rooms json).run n j code s) c
  := by
  have hheld : c.held n = none := hs.idle n hidle
  have hhow : (code.resume (s.process ())).halt = halt := congrArg Coroutine.Stretch.halt hresume
  apply hs.after hn hidle hresume hcached hallocated (fun _ _ => rfl)
  · obtain ⟨room, hroom, -⟩ | ⟨e, -, hrun⟩ | ⟨q, k, -, hrun⟩ := (rooms json).run_cases n j code s
    · obtain rfl : halt = .returned room := hhow.symm.trans hroom
      exact hhalt.elim
    · rw [hrun]
      exact hs.given
    · rw [hrun]
      exact hs.given
  · exact fun y hy => .inl hy
  · obtain ⟨room, -, hrun⟩ | ⟨e, -, hrun⟩ | ⟨q, k, hk, hrun⟩ := (rooms json).run_cases n j code s
    · rw [hrun]
      dsimp only
      rw [Function.update_self]
      exact hheld
    · rw [hrun]
      dsimp only
      rw [Function.update_self]
      exact hheld
    · obtain rfl : halt = .waiting q k := hhow.symm.trans hk
      rw [hrun]
      dsimp only
      rw [Function.update_self]
      obtain ⟨x, hat | ⟨hat, -⟩⟩ := hhalt
      · exact ⟨x, .testing, hat, hheld⟩
      · exact ⟨x, .inserting, hat, hheld⟩

/-- A call at the room `x`, which no other one claims, claims it until it has returned it. -/
theorem Claiming.create (hs : Claiming json s c) (hn : n < s.fresh) (hidle : s.waiting n = none)
    (hresume : code.resume (s.process ()) = ⟨[], p, halt⟩)
    (hcached : ∀ key, (record (s.process ()) .room key).isSome → (record p .room key).isSome)
    (hallocated : Allocated p) {x : RoomId} (hx : ¬ c.Taken x) (hrec : (record p .room x.key).isSome)
    (hhalt : Creating j x halt) :
  ∃ c', Claiming json ((rooms json).run n j code s) c' ∧ (∀ m ≠ n, c'.held m = c.held m) ∧
    ∀ y, c'.held n = some y → y = x
  := by
  have hheld : c.held n = none := hs.idle n hidle
  have hhow : (code.resume (s.process ())).halt = halt := congrArg Coroutine.Stretch.halt hresume
  have hclaim : (c.claim n x hx).held n = some x := Function.update_self _ _ _
  obtain ⟨room, hroom, hrun⟩ | ⟨e, he, hrun⟩ | ⟨q, k, hk, hrun⟩ := (rooms json).run_cases n j code s
  · -- the room is returned
    obtain rfl : halt = .returned room := hhow.symm.trans hroom
    obtain rfl : room.2 = x := hhalt
    have hheld' : ((c.claim n room.2 hx).give n room.2 hclaim).held = c.held := by
      change Function.update (Function.update c.held n (some room.2)) n none = _
      rw [Function.update_idem, ← hheld, Function.update_eq_self]
    use (c.claim n room.2 hx).give n room.2 hclaim
    rw [hheld']
    refine ⟨?_, fun _ _ => rfl, fun y hy => nomatch hheld.symm.trans hy⟩
    apply hs.after hn hidle hresume hcached hallocated
    · intro m _
      rw [hheld']
    · have hids : roomIds ((rooms json).run n j code s) = room.2 :: roomIds s := by
        rw [hrun]
        rfl
      rw [hids, hs.given]
      rfl
    · intro y hy
      obtain rfl | hy := Claims.taken_claim (Claims.taken_give hy)
      · exact .inr hrec
      · exact .inl hy
    · rw [hrun, hheld']
      dsimp only
      rw [Function.update_self]
      exact hheld
  · use c
    refine ⟨?_, fun _ _ => rfl, fun y hy => nomatch hheld.symm.trans hy⟩
    apply hs.after hn hidle hresume hcached hallocated (fun _ _ => rfl)
    · rw [hrun]
      exact hs.given
    · exact fun y hy => .inl hy
    · rw [hrun]
      dsimp only
      rw [Function.update_self]
      exact hheld
  · obtain rfl : halt = .waiting q k := hhow.symm.trans hk
    have hother : ∀ m ≠ n, (c.claim n x hx).held m = c.held m :=
      fun m hm => Function.update_of_ne hm _ _
    use c.claim n x hx
    refine ⟨?_, hother, fun y hy => (Option.some.inj (hclaim.symm.trans hy)).symm⟩
    apply hs.after hn hidle hresume hcached hallocated hother
    · rw [hrun]
      exact hs.given
    · intro y hy
      obtain rfl | hy := Claims.taken_claim hy
      · exact .inr hrec
      · exact .inl hy
    · rw [hrun]
      dsimp only
      rw [Function.update_self]
      obtain hat | hat := hhalt
      · exact ⟨x, .filling, hat, hclaim⟩
      · exact ⟨x, .updating, hat, hclaim⟩

end Run

/-- Taking an answer and the call that waits for it away drops the claim of the call. -/
theorem Claiming.collect (hs : Claiming json s c) {r : Except String Answer} {w : Backend.State}
    (hw : Backend.collect n s.network = some (r, w)) :
  Claiming json { s with
    network := w
    waiting := Function.update s.waiting n none } (c.drop n)
  := by
  have hother : ∀ m ≠ n, (c.drop n).held m = c.held m := fun m hm => Function.update_of_ne hm _ _
  constructor
  · exact hs.routed.collect hw
  · exact hs.allocated
  · exact hs.given
  · exact fun x hx => hs.cached x (Claims.taken_drop hx)
  · intro m t ht
    rcases eq_or_ne m n with rfl | hm
    · cases (Function.update_self (f := s.waiting) m none).symm.trans ht
    · rw [hother m hm]
      exact hs.waiting m t ((Function.update_of_ne hm _ _).symm.trans ht)
  · intro m hnone
    rcases eq_or_ne m n with rfl | hm
    · exact Function.update_self _ _ _
    · rw [hother m hm]
      exact hs.idle m ((Function.update_of_ne hm _ _).symm.trans hnone)

/-- What a call holds is not taken once it has dropped it. -/
theorem not_taken_of_held {x : RoomId} (hheld : c.held n = some x) :
  ¬ (c.drop n).Taken x
  := by
  rintro (hmem | ⟨m, hm⟩)
  · exact c.not_given n x hheld hmem
  · obtain ⟨hne, hm⟩ := Claims.held_of_drop hm
    exact hne (c.injective m n x hm hheld)

theorem Claiming.not_taken (hs : Claiming json s c) {x : RoomId}
    (hnone : record (s.process ()) .room x.key = none) :
  ¬ (c.drop n).Taken x
  := by
  intro htaken
  have hrec := hs.cached x (Claims.taken_drop htaken)
  rw [hnone] at hrec
  cases hrec

/-- What the wake of a call leaves: it claims the room it is at, if any. -/
theorem Claiming.resume (hs : Claiming json s c) {t : Waiting Script.interface Job Room}
    {r : Except String Answer} {w : Backend.State} {p : Script.State}
    {halt : Coroutine.Halt Script.interface Room} (ht : s.waiting n = some t)
    (hw : Backend.collect n s.network = some (r, w))
    (hresume : (t.resumed r).resume (s.process ()) = ⟨[], p, halt⟩)
    (hgoes : Goes c n t r (s.process ()) p halt) :
  ∃ c', Claiming json ((rooms json).run n t.job (t.resumed r) { s with network := w }) c' ∧
    (∀ m ≠ n, c'.held m = c.held m) ∧
    ∀ y, c'.held n = some y → c.held n = some y ∨
      record (s.process ()) .room y.key = none ∧ ∃ h, t.query = .redis h (.insert .room y.key)
  := by
  have hcollect := hs.collect hw
  have hn := hs.routed.fresh n t ht
  have hidle : Function.update s.waiting n none n = none := Function.update_self _ _ _
  have hother : ∀ m ≠ n, (c.drop n).held m = c.held m := fun m hm => Function.update_of_ne hm _ _
  have hdrop : ∀ y, (c.drop n).held n ≠ some y := by
    intro y hy
    exact (Claims.held_of_drop hy).1 rfl
  rw [← (rooms json).run_clear]
  cases hgoes with
  | tested hquery hheld hhalt hsteady hsole =>
      refine ⟨c.drop n, ?_, hother, fun y hy => absurd hy (hdrop y)⟩
      exact hcollect.seek hn hidle hresume hsteady.cached (hsteady.allocated hs.allocated) hhalt
  | refused hquery hheld hhalt hsame =>
      subst hsame hhalt
      refine ⟨c.drop n, ?_, hother, fun y hy => absurd hy (hdrop y)⟩
      exact hcollect.seek hn hidle hresume (fun _ h => h) hs.allocated trivial
  | created hquery hheld hhalt hnone hcached hsteady hsole hkeyed =>
      obtain ⟨c', hc', hsame, hself⟩ := hcollect.create hn hidle hresume hsteady.cached
        (hsteady.allocated hs.allocated) (hs.not_taken hnone) (by rw [hcached]; rfl) hhalt
      refine ⟨c', hc', fun m hm => (hsame m hm).trans (hother m hm), fun y hy => .inr ?_⟩
      obtain rfl := hself y hy
      exact ⟨hnone, _, hquery⟩
  | held hquery hheld hhalt hsteady hsole hkeyed =>
      have hrec := hsteady.cached _ (hs.cached _ (.inr ⟨n, hheld⟩))
      obtain ⟨c', hc', hsame, hself⟩ := hcollect.create hn hidle hresume hsteady.cached
        (hsteady.allocated hs.allocated) (not_taken_of_held hheld) hrec hhalt
      refine ⟨c', hc', fun m hm => (hsame m hm).trans (hother m hm), fun y hy => .inl ?_⟩
      obtain rfl := hself y hy
      exact hheld

/-- Starting a call changes no record, and the call waits for the answer to a test at most. -/
theorem start_cases {j : Job} (hstep : (rooms json).step s (.start j) = some s') :
  s' = (rooms json).run s.fresh j (createRoomRecord j.userId j.draws) { s with fresh := s.fresh + 1 } ∧
  ∃ m halt, (createRoomRecord j.userId j.draws).resume (s.process ())
      = ⟨[], { s.process () with numhandler := m }, halt⟩ ∧
    Seeking j (s.process ()) halt ∧
    ∀ q k, halt = .waiting q k → ∃ h x, q = .redis h (.query .room (RoomId.key x))
  := by
  obtain ⟨j', h, hrun⟩ | ⟨h, w, h, -⟩ | ⟨m, t, r, w, h, -⟩ := (rooms json).step_cases hstep
  · obtain rfl := Plant.Step.start.inj h
    use hrun
    obtain ⟨m, ⟨e, hresume⟩ | ⟨x, q, k, hresume, hat⟩⟩ := createRoomRecord_resume j j.draws (s.process ())
    · exact ⟨m, _, hresume, trivial, fun _ _ => nofun⟩
    · refine ⟨m, _, hresume, ⟨x, .inl hat⟩, ?_⟩
      rintro q' k' ⟨⟩
      obtain ⟨h, -, rfl, -⟩ := hat
      exact ⟨h, x, rfl⟩
  · cases h
  · cases h

theorem Claiming.start (hs : Claiming json s c) {j : Job}
    (hstep : (rooms json).step s (.start j) = some s') :
  Claiming json s' c
  := by
  obtain ⟨rfl, m, halt, hresume, hhalt, -⟩ := start_cases hstep
  have hnext : Claiming json { s with fresh := s.fresh + 1 } c :=
    ⟨hs.routed.next, hs.allocated, hs.given, hs.cached, hs.waiting, hs.idle⟩
  have hturn := (Steady.refl (fun _ => False) (s.process ())).turn m
  exact hnext.seek (Nat.lt_succ_self _) hs.routed.idle hresume hturn.cached
    (hturn.allocated hs.allocated) hhalt

theorem Claiming.event (hs : Claiming json s c) {h : ℕ} {w : Backend.State}
    (hw : react json h s.network = some w) :
  Claiming json { s with network := w } c
  := ⟨hs.routed.event hw, hs.allocated, hs.given, hs.cached, hs.waiting, hs.idle⟩

theorem Claiming.step (hs : Claiming json s c) {a : Plant.Step Job ℕ} (hapart : Apart s a)
    (hstep : (rooms json).step s a = some s') :
  ∃ c', Claiming json s' c'
  := by
  cases a with
  | start j => exact ⟨c, hs.start hstep⟩
  | event h =>
      obtain ⟨w, hw, rfl⟩ := Option.map_eq_some_iff.mp hstep
      exact ⟨c, hs.event hw⟩
  | wake n =>
      obtain ⟨t, r, w, p, halt, ht, hw, hresume, rfl, hgoes⟩ := hs.wake hapart hstep
      obtain ⟨c', hc', -⟩ := hs.resume ht hw hresume hgoes
      exact ⟨c', hc'⟩

/-- The rooms are claimed in every state reached while no call gets in between. -/
theorem claiming_of_reaches (h : ((rooms json).machine Quiet).Reaches Apart s) :
  ∃ c, Claiming json s c
  := by
  apply Machine.invariant _ _ h
  · intro s hs
    use .empty
    constructor
    · exact hs.uncalled.routed
    · exact hs.allocated
    · rw [roomIds, hs.ended]
      rfl
    · rintro x (hmem | ⟨n, hn⟩)
      · cases hmem
      · cases hn
    · intro n t ht
      cases (hs.uncalled.waiting n).symm.trans ht
    · exact fun _ _ => rfl
  · rintro s a s' ⟨c, hs⟩ hapart hstep
    exact hs.step hapart hstep

/-! ### What did not exist before a call -/

/-- A stretch leaves redis and the answers as they are. -/
theorem run_network (s : Scripts Job Room) (n : ℕ) (j : Job) (code : Script Room) :
  ((rooms json).run n j code s).network.db = s.network.db ∧
    ((rooms json).run n j code s).network.answers = s.network.answers
  := by
  obtain ⟨a, -, hrun⟩ | ⟨e, -, hrun⟩ | ⟨q, k, -, hrun⟩ := (rooms json).run_cases n j code s
  · rw [hrun]
    exact ⟨rfl, rfl⟩
  · rw [hrun]
    exact ⟨rfl, rfl⟩
  · rw [hrun]
    cases q <;> exact ⟨rfl, rfl⟩

/-- No turn of a service removes a room from redis. -/
theorem stored_mono (hs : Routed json s) {h : ℕ} {w : Backend.State}
    (hw : react json h s.network = some w) {f : String} (hf : f ∈ s.network.db .room) :
  f ∈ w.db .room
  := by
  have hsame : SameRecords s.network.db w.db → f ∈ w.db .room := by
    intro hrecords
    rw [← AList.lookup_isSome] at hf ⊢
    rwa [hrecords .room f nofun]
  obtain ⟨-, -, hcontinued | ⟨req, hfinished⟩⟩ := turn_cases hs.performing hw
  · exact hsame hcontinued.records
  · cases hwrite : writeOf json req.cmd with
    | none => exact hsame (hfinished.records hwrite)
    | some v =>
        obtain ⟨-, hdb⟩ := hfinished.stored v hwrite
        rw [hdb]
        rcases eq_or_ne TName.room v.tname with heq | hne
        · rw [← heq, Function.update_self, AList.mem_insert]
          exact .inr hf
        · rwa [Function.update_of_ne hne]

/-- The room that the call started in `s₁` inserts or has created did not exist in `s₁`. -/
structure Since (s₁ s : Scripts Job Room) (c : Claims RoomId) : Prop where
  started : s₁.fresh < s.fresh
  cached : ∀ key, (record (s₁.process ()) .room key).isSome → (record (s.process ()) .room key).isSome
  stored : ∀ f, f ∈ s₁.network.db .room → f ∈ s.network.db .room
  inserting : ∀ t h x, s.waiting s₁.fresh = some t → t.query = .redis h (.insert .room (RoomId.key x)) →
    record (s₁.process ()) .room x.key = none ∧
      ((s.network.answers s₁.fresh).isSome → x.key.tostring ∉ s₁.network.db .room)
  held : ∀ x, c.held s₁.fresh = some x → ¬ Exists s₁ x.key

section Since

variable {s₁ : Scripts Job Room}

/-- The call has just been started. -/
theorem Since.begin (hs : Claiming json s₁ c) {j : Job}
    (hstep : (rooms json).step s₁ (.start j) = some s) :
  Since s₁ s c
  := by
  obtain ⟨rfl, m, halt, hresume, hhalt, hquery⟩ := start_cases hstep
  have hhow := congrArg Coroutine.Stretch.halt hresume
  constructor
  · rw [Plant.run_fresh]
    exact Nat.lt_succ_self _
  · intro key hkey
    rw [Plant.run_process, Function.update_self]
    change (record ((createRoomRecord j.userId j.draws).resume (s₁.process ())).state .room key).isSome
    rw [hresume]
    exact hkey
  · intro f hf
    rw [(run_network _ _ _ _).1]
    exact hf
  · intro t h x ht hinsert
    obtain ⟨-, hwaiting⟩ := (rooms json).run_waiting_self _ _ _ _ ht
    obtain ⟨h', x', hq⟩ := hquery _ _ (hhow.symm.trans hwaiting)
    cases hinsert.symm.trans hq
  · intro x hx
    cases (hs.idle _ hs.routed.idle).symm.trans hx

/-- Another call is started. -/
theorem Since.start (hsince : Since s₁ s c) {j : Job}
    (hstep : (rooms json).step s (.start j) = some s') :
  Since s₁ s' c
  := by
  obtain ⟨rfl, m, halt, hresume, -, -⟩ := start_cases hstep
  constructor
  · rw [Plant.run_fresh]
    exact Nat.lt_succ_of_lt hsince.started
  · intro key hkey
    rw [Plant.run_process, Function.update_self]
    change (record ((createRoomRecord j.userId j.draws).resume (s.process ())).state .room key).isSome
    rw [hresume]
    exact hsince.cached key hkey
  · intro f hf
    rw [(run_network _ _ _ _).1]
    exact hsince.stored f hf
  · intro t h x ht hquery
    rw [Plant.run_waiting_of_ne _ _ _ _ _ (Nat.ne_of_lt hsince.started)] at ht
    rw [(run_network _ _ _ _).2]
    exact hsince.inserting t h x ht hquery
  · exact hsince.held

/-- What an insert writes. -/
theorem writeOf_insert (x : RoomId) :
  writeOf json (.insert .room x.key)
    = some ⟨.room, x.key.tostring, json.encode (dbtable .room).detail⟩
  := rfl

/-- A service has a turn. -/
theorem Since.event (hs : Claiming json s c) (hsince : Since s₁ s c) {h : ℕ} {w : Backend.State}
    (hapart : Apart s (.event h)) (hw : react json h s.network = some w) :
  Since s₁ { s with network := w } c
  := by
  constructor
  · exact hsince.started
  · exact hsince.cached
  · exact fun f hf => stored_mono hs.routed hw (hsince.stored f hf)
  · intro t h' x ht hquery
    obtain ⟨hnone, hanswered⟩ := hsince.inserting t h' x ht hquery
    use hnone
    intro hanswer
    obtain ⟨-, -, hcontinued | ⟨req, hfinished⟩⟩ := turn_cases hs.routed.performing hw
    · rw [hcontinued.answers] at hanswer
      exact hanswered hanswer
    · obtain ⟨y, -, hanswers⟩ := hfinished.answers
      rw [hanswers] at hanswer
      rcases eq_or_ne s₁.fresh req.session with hsession | hne
      · -- redis stores the room that the call inserts
        obtain ⟨t', ht', hquery'⟩ := hs.routed.loaded h req hfinished.first
        rw [← hsession] at ht'
        obtain rfl := Option.some.inj (ht.symm.trans ht')
        obtain ⟨-, hcmd⟩ := Script.Call.redis.inj (hquery'.symm.trans hquery)
        have hwrite : writeOf json req.cmd = _ := (congrArg _ hcmd).trans (writeOf_insert x)
        obtain ⟨⟨r, hrunning, rfl, hr⟩, -⟩ := hfinished.stored _ hwrite
        intro hmem
        exact hapart r x.key _ hrunning hcmd hr (hsince.stored _ hmem)
      · rw [Function.update_of_ne hne] at hanswer
        exact hanswered hanswer
  · exact hsince.held

/-- A call is resumed. -/
theorem Since.wake (hsince : Since s₁ s c) {t : Waiting Script.interface Job Room}
    {r : Except String Answer} {w : Backend.State} {p : Script.State}
    {halt : Coroutine.Halt Script.interface Room} {c' : Claims RoomId} (ht : s.waiting n = some t)
    (hw : Backend.collect n s.network = some (r, w))
    (hresume : (t.resumed r).resume (s.process ()) = ⟨[], p, halt⟩)
    (hgoes : Goes c n t r (s.process ()) p halt) (hother : ∀ m ≠ n, c'.held m = c.held m)
    (hself : ∀ y, c'.held n = some y → c.held n = some y ∨
      record (s.process ()) .room y.key = none ∧ ∃ h, t.query = .redis h (.insert .room y.key)) :
  Since s₁ ((rooms json).run n t.job (t.resumed r) { s with network := w }) c'
  := by
  obtain ⟨r', hanswer, heq⟩ := Option.map_eq_some_iff.mp hw
  cases heq
  have hcached : ∀ key, (record (s.process ()) .room key).isSome → (record p .room key).isSome := by
    cases hgoes with
    | tested hquery hheld hhalt hsteady hsole => exact hsteady.cached
    | refused hquery hheld hhalt hsame =>
        subst hsame
        exact fun _ h => h
    | created hquery hheld hhalt hnone hcached hsteady hsole hkeyed => exact hsteady.cached
    | held hquery hheld hhalt hsteady hsole hkeyed => exact hsteady.cached
  have hhow := congrArg Coroutine.Stretch.halt hresume
  constructor
  · rw [Plant.run_fresh]
    exact hsince.started
  · intro key hkey
    rw [Plant.run_process, Function.update_self]
    change (record ((t.resumed r).resume (s.process ())).state .room key).isSome
    rw [hresume]
    exact hcached key (hsince.cached key hkey)
  · intro f hf
    rw [(run_network _ _ _ _).1]
    exact hsince.stored f hf
  · intro t' h x ht' hquery'
    rw [(run_network _ _ _ _).2]
    rcases eq_or_ne s₁.fresh n with rfl | hne
    · have hnone : Function.update s.network.answers s₁.fresh none s₁.fresh = none :=
        Function.update_self _ _ _
      dsimp only
      rw [hnone]
      refine ⟨?_, nofun⟩
      obtain ⟨-, hwaiting⟩ := (rooms json).run_waiting_self _ _ _ _ ht'
      obtain rfl := hhow.symm.trans hwaiting
      cases hgoes with
      | tested hquery hheld hhalt hsteady hsole =>
          obtain ⟨y, ⟨h', draws, hq, -⟩ | ⟨⟨h', hq, -⟩, hfree⟩⟩ := hhalt
          · cases hquery'.symm.trans hq
          · obtain ⟨-, hcmd⟩ := Script.Call.redis.inj (hquery'.symm.trans hq)
            obtain rfl := key_injective (Cmd.insert.inj hcmd).2
            apply Option.not_isSome_iff_eq_none.mp
            intro hsome
            have hrec := hsince.cached _ hsome
            rw [hfree] at hrec
            cases hrec
      | refused hquery hheld hhalt hsame => cases hhalt
      | created hquery hheld hhalt hnone hcached hsteady hsole hkeyed =>
          obtain ⟨h', rectab, hq, -⟩ | ⟨h', rectab, hq, -⟩ := hhalt <;> cases hquery'.symm.trans hq
      | held hquery hheld hhalt hsteady hsole hkeyed =>
          obtain ⟨h', rectab, hq, -⟩ | ⟨h', rectab, hq, -⟩ := hhalt <;> cases hquery'.symm.trans hq
    · rw [Plant.run_waiting_of_ne _ _ _ _ _ hne] at ht'
      dsimp only
      rw [Function.update_of_ne hne]
      exact hsince.inserting t' h x ht' hquery'
  · intro x hx
    rcases eq_or_ne s₁.fresh n with rfl | hne
    · obtain hheld | ⟨hnone, h, hquery⟩ := hself x hx
      · exact hsince.held x hheld
      · obtain ⟨hnone, hanswered⟩ := hsince.inserting t h x ht hquery
        rintro (hsome | hmem)
        · rw [hnone] at hsome
          cases hsome
        · exact hanswered (by rw [hanswer]; rfl) hmem
    · rw [hother _ hne] at hx
      exact hsince.held x hx

/-- Whatever comes next while no call gets in between. -/
theorem Since.step (hs : Claiming json s c) (hsince : Since s₁ s c) {a : Plant.Step Job ℕ}
    (hapart : Apart s a) (hstep : (rooms json).step s a = some s') :
  ∃ c', Claiming json s' c' ∧ Since s₁ s' c'
  := by
  cases a with
  | start j => exact ⟨c, hs.start hstep, hsince.start hstep⟩
  | event h =>
      obtain ⟨w, hw, rfl⟩ := Option.map_eq_some_iff.mp hstep
      exact ⟨c, hs.event hw, hsince.event hs hapart hw⟩
  | wake n =>
      obtain ⟨t, r, w, p, halt, ht, hw, hresume, rfl, hgoes⟩ := hs.wake hapart hstep
      obtain ⟨c', hc', hother, hself⟩ := hs.resume ht hw hresume hgoes
      exact ⟨c', hc', hsince.wake ht hw hresume hgoes hother hself⟩

/-! ### Whose record changes -/

/-- The room that the call started in `s₁` has created is the only one with the table of the defaults, and
is what the call updates. -/
structure Unmixed (s₁ s : Scripts Job Room) (c : Claims RoomId) : Prop where
  sole : ∀ x, c.held s₁.fresh = some x → Sole x (s.process ())
  keyed : ∀ x, c.held s₁.fresh = some x → ∀ t h rectab, s.waiting s₁.fresh = some t →
    t.query = .redis h (.update .room rectab) → rectab.get (dbtable .room).pkey = x.key

theorem Unmixed.begin (hs : Claiming json s₁ c) :
  Unmixed s₁ s c
  := by
  have hheld : c.held s₁.fresh = none := hs.idle _ hs.routed.idle
  constructor
  · intro x hx
    cases hheld.symm.trans hx
  · intro x hx
    cases hheld.symm.trans hx

theorem Unmixed.start (hunmixed : Unmixed s₁ s c) (hsince : Since s₁ s c) {j : Job}
    (hstep : (rooms json).step s (.start j) = some s') :
  Unmixed s₁ s' c
  := by
  obtain ⟨rfl, m, halt, hresume, -, -⟩ := start_cases hstep
  constructor
  · intro x hx
    rw [Plant.run_process, Function.update_self]
    change Sole x ((createRoomRecord j.userId j.draws).resume (s.process ())).state
    rw [hresume]
    exact (hunmixed.sole x hx).turn m
  · intro x hx t h rectab ht
    rw [Plant.run_waiting_of_ne _ _ _ _ _ (Nat.ne_of_lt hsince.started)] at ht
    exact hunmixed.keyed x hx t h rectab ht

/-- What a test finds is not cached yet. -/
theorem found_not_cached {t : Waiting Script.interface Job Room} {r : Except String Answer}
    {w : Backend.State} {h : ℕ} {key : Value} (hunshared : Unshared s (.wake n))
    (ht : s.waiting n = some t) (hquery : t.query = .redis h (.query .room key))
    (hw : Backend.collect n s.network = some (r, w)) :
  ∀ rtab ∈ foundIn r, record (s.process ()) .room (rtab.get (dbtable .room).pkey) = none
  := by
  intro rtab hrtab
  match r with
  | .error e => cases hrtab
  | .ok a => exact hunshared.1 t h key a w ht hquery hw rtab hrtab

theorem Unmixed.wake (hunmixed : Unmixed s₁ s c) {t : Waiting Script.interface Job Room}
    {r : Except String Answer} {w : Backend.State} {p : Script.State}
    {halt : Coroutine.Halt Script.interface Room} {c' : Claims RoomId}
    (hunshared : Unshared s (.wake n)) (ht : s.waiting n = some t)
    (hw : Backend.collect n s.network = some (r, w))
    (hresume : (t.resumed r).resume (s.process ()) = ⟨[], p, halt⟩)
    (hgoes : Goes c n t r (s.process ()) p halt)
    (hc' : Claiming json ((rooms json).run n t.job (t.resumed r) { s with network := w }) c')
    (hother : ∀ m ≠ n, c'.held m = c.held m)
    (hself : ∀ y, c'.held n = some y → c.held n = some y ∨
      record (s.process ()) .room y.key = none ∧ ∃ h, t.query = .redis h (.insert .room y.key)) :
  Unmixed s₁ ((rooms json).run n t.job (t.resumed r) { s with network := w }) c'
  := by
  have hprocess : ((rooms json).run n t.job (t.resumed r) { s with network := w }).process () = p := by
    rw [Plant.run_process, Function.update_self]
    exact congrArg Coroutine.Stretch.state hresume
  have hhow := congrArg Coroutine.Stretch.halt hresume
  rcases eq_or_ne s₁.fresh n with rfl | hne
  · -- what the call itself does
    have hroom : ∀ x, c'.held s₁.fresh = some x → Sole x p ∧ ∀ h rectab k,
        halt = .waiting (.redis h (.update .room rectab)) k →
          rectab.get (dbtable .room).pkey = x.key := by
      intro x hx
      have hhow' := hself x hx
      cases hgoes with
      | tested hquery hheld hhalt hsteady hsole =>
          obtain heq | ⟨-, h', hinsert⟩ := hhow'
          · cases hheld.symm.trans heq
          · cases hquery.symm.trans hinsert
      | refused hquery hheld hhalt hsame =>
          have hended := (rooms json).run_ended s₁.fresh t.job (t.resumed r) { s with network := w }
            fun q k hwaiting => nomatch (hhow.symm.trans hwaiting).symm.trans hhalt
          have hidle := congrFun hended.1 s₁.fresh
          rw [Function.update_self] at hidle
          cases (hc'.idle s₁.fresh hidle).symm.trans hx
      | created hquery hheld hhalt hnone hcached hsteady hsole hkeyed =>
          obtain heq | ⟨-, h', hinsert⟩ := hhow'
          · cases hheld.symm.trans heq
          · obtain ⟨-, hcmd⟩ := Script.Call.redis.inj (hquery.symm.trans hinsert)
            obtain rfl := key_injective (Cmd.insert.inj hcmd).2
            exact ⟨hsole (hunshared.2 t _ _ ht hquery), hkeyed⟩
      | held hquery hheld hhalt hsteady hsole hkeyed =>
          obtain heq | ⟨-, h', hinsert⟩ := hhow'
          · obtain rfl := Option.some.inj (hheld.symm.trans heq)
            have hx := hunmixed.sole _ hheld
            exact ⟨hsole _ hx, hkeyed hx⟩
          · cases hquery.symm.trans hinsert
    constructor
    · intro x hx
      rw [hprocess]
      exact (hroom x hx).1
    · intro x hx t' h rectab ht' hquery'
      obtain ⟨-, hwaiting⟩ := (rooms json).run_waiting_self _ _ _ _ ht'
      rw [hquery'] at hwaiting
      exact (hroom x hx).2 h rectab _ (hhow.symm.trans hwaiting)
  · constructor
    · intro x hx
      rw [hprocess]
      rw [hother _ hne] at hx
      have hsolex := hunmixed.sole x hx
      cases hgoes with
      | tested hquery hheld hhalt hsteady hsole =>
          apply hsole x hsolex
          intro rtab hrtab heq
          have hnone := found_not_cached hunshared ht hquery hw rtab hrtab
          rw [heq, hsolex.cached] at hnone
          cases hnone
      | refused hquery hheld hhalt hsame =>
          subst hsame
          exact hsolex
      | created hquery hheld hhalt hnone hcached hsteady hsole hkeyed =>
          exact absurd hsolex.cached (hunshared.2 t _ _ ht hquery _)
      | held hquery hheld hhalt hsteady hsole hkeyed => exact hsole x hsolex
    · intro x hx t' h rectab ht'
      rw [Plant.run_waiting_of_ne _ _ _ _ _ hne] at ht'
      rw [hother _ hne] at hx
      exact hunmixed.keyed x hx t' h rectab ht'

/-- What the call started in `s₁` updates is its own. -/
theorem own_of_held (hs : Claiming json s c) (hsince : Since s₁ s c) (hunmixed : Unmixed s₁ s c)
    {t : Waiting Script.interface Job Room} {h : ℕ} {rectab : Table} {x : RoomId}
    (ht : s.waiting s₁.fresh = some t) (hquery : t.query = .redis h (.update .room rectab))
    (hheld : c.held s₁.fresh = some x) :
  Own s₁ s x.key
  := by
  constructor
  · exact ⟨t, h, rectab, ht, hquery, hunmixed.keyed x hheld t h rectab ht hquery⟩
  · exact hsince.held x hheld
  · rw [hs.given]
    rintro y hy heq
    obtain rfl := key_injective heq
    exact c.not_given _ _ hheld hy

/-- A call that is resumed changes no record but its own. -/
theorem spared_wake (hs : Claiming json s c) (hsince : Since s₁ s c) (hunmixed : Unmixed s₁ s c)
    {t : Waiting Script.interface Job Room} {r : Except String Answer} {w : Backend.State}
    {p : Script.State} {halt : Coroutine.Halt Script.interface Room}
    (hunshared : Unshared s (.wake s₁.fresh)) (ht : s.waiting s₁.fresh = some t)
    (hw : Backend.collect s₁.fresh s.network = some (r, w))
    (hresume : (t.resumed r).resume (s.process ()) = ⟨[], p, halt⟩)
    (hgoes : Goes c s₁.fresh t r (s.process ()) p halt) :
  Spared s₁ s ((rooms json).run s₁.fresh t.job (t.resumed r) { s with network := w })
  := by
  have hprocess : ((rooms json).run s₁.fresh t.job (t.resumed r) { s with network := w }).process () = p
      := by
    rw [Plant.run_process, Function.update_self]
    exact congrArg Coroutine.Stretch.state hresume
  constructor
  · intro key rectab hrec
    rw [hprocess]
    cases hgoes with
    | tested hquery hheld hhalt hsteady hsole =>
        left
        apply hsteady.kept hs.allocated key rectab hrec
        rintro ⟨rtab, hrtab, rfl⟩
        cases (found_not_cached hunshared ht hquery hw rtab hrtab).symm.trans hrec
    | refused hquery hheld hhalt hsame =>
        subst hsame
        exact .inl ⟨hrec, rfl⟩
    | created hquery hheld hhalt hnone hcached hsteady hsole hkeyed =>
        left
        apply hsteady.kept hs.allocated key rectab hrec
        exact hunshared.2 t _ _ ht hquery key
    | @held h rectab' x hquery hheld hhalt hsteady hsole hkeyed =>
        have hsolex := hunmixed.sole x hheld
        by_cases hsame : record (s.process ()) .room key = record (s.process ()) .room x.key
        · right
          obtain rfl := hsolex.only key (hsame.trans hsolex.cached)
          exact own_of_held hs hsince hunmixed ht hquery hheld
        · exact .inl (hsteady.kept hs.allocated key rectab hrec hsame)
  · intro f text htext
    left
    rw [(run_network _ _ _ _).1]
    obtain ⟨r', -, heq⟩ := Option.map_eq_some_iff.mp hw
    cases heq
    exact htext

/-- A service that works for a call changes no record but that of the call. -/
theorem spared_event (hs : Claiming json s c) (hsince : Since s₁ s c) (hunmixed : Unmixed s₁ s c)
    {h : ℕ} {w : Backend.State} (hof : Of s s₁.fresh (.event h)) (hapart : Apart s (.event h))
    (hw : react json h s.network = some w) :
  Spared s₁ s { s with network := w }
  := by
  constructor
  · exact fun key rectab hrec => .inl ⟨hrec, rfl⟩
  · intro f text htext
    have hsame : SameRecords s.network.db w.db → (w.db .room).lookup f = some text := by
      intro hrecords
      rw [hrecords .room f nofun, htext]
    obtain ⟨cmd, rest, hload⟩ := hof
    obtain ⟨-, -, hcontinued | ⟨req, hfinished⟩⟩ := turn_cases hs.routed.performing hw
    · exact .inl (hsame hcontinued.records)
    · obtain ⟨rest', hload', -⟩ := hfinished.load
      obtain rfl : ⟨s₁.fresh, cmd⟩ = req := (List.cons.inj (hload.symm.trans hload')).1
      obtain ⟨t, ht, hquery⟩ := hs.routed.loaded h _ hfinished.first
      obtain ⟨x, phase, hat, hheld⟩ := hs.waiting _ t ht
      -- what the service stores for the room `x`
      have hstored : ∀ v, writeOf json cmd = some v → v.tname = .room → v.field = x.key.tostring →
          (w.db .room).lookup f = some text ∨ f = x.key.tostring := by
        intro v hwrite htname hfield
        obtain ⟨-, hdb⟩ := hfinished.stored v hwrite
        rw [hdb, htname, hfield, Function.update_self]
        rcases eq_or_ne f x.key.tostring with rfl | hf
        · exact .inr rfl
        · rw [AList.lookup_insert_ne hf]
          exact .inl htext
      have hupdate : ∀ h' rectab, t.query = .redis h' (.update .room rectab) →
          c.held s₁.fresh = some x →
          (w.db .room).lookup f = some text ∨ ∃ key : Value, f = key.tostring ∧ Own s₁ s key := by
        intro h' rectab hq hroom
        obtain ⟨-, rfl⟩ := Script.Call.redis.inj (hquery.symm.trans hq)
        have hkeyed := hunmixed.keyed x hroom t h' rectab ht hq
        have hwrite : writeOf json (.update .room rectab)
            = some ⟨.room, x.key.tostring, json.encode rectab⟩ := by
          rw [writeOf, hkeyed, if_pos (key_truthy x)]
        obtain hkept | rfl := hstored _ hwrite rfl rfl
        · exact .inl hkept
        · exact .inr ⟨x.key, rfl, own_of_held hs hsince hunmixed ht hq hroom⟩
      cases phase with
      | testing =>
          obtain ⟨h', draws, hq, -⟩ := hat
          obtain ⟨-, rfl⟩ := Script.Call.redis.inj (hquery.symm.trans hq)
          exact .inl (hsame (hfinished.records rfl))
      | inserting =>
          obtain ⟨h', hq, -⟩ := hat
          obtain ⟨-, rfl⟩ := Script.Call.redis.inj (hquery.symm.trans hq)
          obtain ⟨⟨r, hrunning, hreq, hr⟩, -⟩ := hfinished.stored _ (writeOf_insert x)
          obtain hkept | rfl := hstored _ (writeOf_insert x) rfl rfl
          · exact .inl hkept
          · have habsent := hapart r x.key _ hrunning (congrArg Request.cmd hreq) hr
            rw [← AList.lookup_isSome, htext] at habsent
            exact absurd rfl habsent
      | filling =>
          obtain ⟨h', rectab, hq, -⟩ := hat
          exact hupdate h' rectab hq hheld
      | updating =>
          obtain ⟨h', rectab, hq, -⟩ := hat
          exact hupdate h' rectab hq hheld

theorem Unmixed.step (hs : Claiming json s c) (hsince : Since s₁ s c) (hunmixed : Unmixed s₁ s c)
    {a : Plant.Step Job ℕ} (hapart : Apart s a) (hunshared : Unshared s a)
    (hstep : (rooms json).step s a = some s') :
  ∃ c', Claiming json s' c' ∧ Since s₁ s' c' ∧ Unmixed s₁ s' c'
  := by
  cases a with
  | start j => exact ⟨c, hs.start hstep, hsince.start hstep, hunmixed.start hsince hstep⟩
  | event h =>
      obtain ⟨w, hw, rfl⟩ := Option.map_eq_some_iff.mp hstep
      exact ⟨c, hs.event hw, hsince.event hs hapart hw, hunmixed.sole, hunmixed.keyed⟩
  | wake n =>
      obtain ⟨t, r, w, p, halt, ht, hw, hresume, rfl, hgoes⟩ := hs.wake hapart hstep
      obtain ⟨c', hc', hother, hself⟩ := hs.resume ht hw hresume hgoes
      use c', hc', hsince.wake ht hw hresume hgoes hother hself
      exact hunmixed.wake hunshared ht hw hresume hgoes hc' hother hself

/-- A call that returns has created its room. -/
theorem absent_of_returned (hs : Claiming json s c) (hsince : Since s₁ s c) {j : Job} {room : Room}
    (hapart : Apart s (.wake s₁.fresh)) (hstep : (rooms json).step s (.wake s₁.fresh) = some s')
    (hended : s'.ended = (j, .returned room) :: s.ended) :
  ¬ Exists s₁ room.2.key
  := by
  obtain ⟨t, r, w, p, halt, ht, hw, hresume, hrun, hgoes⟩ := hs.wake hapart hstep
  have hhow := congrArg Coroutine.Stretch.halt hresume
  have hhalt : halt = .returned room := by
    obtain ⟨room', hroom, hrun'⟩ | ⟨e, -, hrun'⟩ | ⟨q, k, -, hrun'⟩ :=
      (rooms json).run_cases s₁.fresh t.job (t.resumed r) { s with network := w }
    · rw [hrun, hrun'] at hended
      obtain ⟨-, heq⟩ := Prod.mk.inj (List.cons.inj hended).1
      obtain rfl := Outcome.returned.inj heq
      exact hhow.symm.trans hroom
    · rw [hrun, hrun'] at hended
      cases (Prod.mk.inj (List.cons.inj hended).1).2
    · rw [hrun, hrun'] at hended
      exact absurd (congrArg List.length hended).symm (Nat.succ_ne_self _)
  subst hhalt
  cases hgoes with
  | tested hquery hheld hhalt hsteady hsole => exact hhalt.elim
  | refused hquery hheld hhalt hsame => cases hhalt
  | created hquery hheld hhalt hnone hcached hsteady hsole hkeyed =>
      obtain rfl := hhalt
      obtain ⟨hnone, hanswered⟩ := hsince.inserting t _ _ ht hquery
      obtain ⟨r', hanswer, heq⟩ := Option.map_eq_some_iff.mp hw
      rintro (hsome | hmem)
      · rw [hnone] at hsome
        cases hsome
      · exact hanswered (by rw [hanswer]; rfl) hmem
  | held hquery hheld hhalt hsteady hsole hkeyed =>
      obtain rfl := hhalt
      exact hsince.held _ hheld

/-- The steps of a call change no record but its own. -/
theorem spared_of (hs : Claiming json s c) (hsince : Since s₁ s c) (hunmixed : Unmixed s₁ s c)
    {a : Plant.Step Job ℕ} (hof : Of s s₁.fresh a) (hapart : Apart s a) (hunshared : Unshared s a)
    (hstep : (rooms json).step s a = some s') :
  Spared s₁ s s'
  := by
  cases a with
  | start j => exact absurd hof (Nat.ne_of_gt hsince.started)
  | event h =>
      obtain ⟨w, hw, rfl⟩ := Option.map_eq_some_iff.mp hstep
      exact spared_event hs hsince hunmixed hof hapart hw
  | wake n =>
      obtain rfl : n = s₁.fresh := hof
      obtain ⟨t, r, w, p, halt, ht, hw, hresume, rfl, hgoes⟩ := hs.wake hapart hstep
      exact spared_wake hs hsince hunmixed hunshared ht hw hresume hgoes

/-- Starting a call changes no record. -/
theorem spared_start {j : Job} (hstep : (rooms json).step s₁ (.start j) = some s) :
  Spared s₁ s₁ s
  := by
  obtain ⟨rfl, m, halt, hresume, -, -⟩ := start_cases hstep
  constructor
  · intro key rectab hrec
    rw [Plant.run_process, Function.update_self]
    change (record ((createRoomRecord j.userId j.draws).resume (s₁.process ())).state .room key = _ ∧
      ((createRoomRecord j.userId j.draws).resume (s₁.process ())).state.deref rectab = _) ∨ _
    rw [hresume]
    exact .inl ⟨hrec, rfl⟩
  · intro f text htext
    rw [(run_network _ _ _ _).1]
    exact .inl htext

end Since

end Step

/-- While no call gets in between, no id is returned twice, and none that a room has had before the call;
and while, moreover, no other room has the table of the defaults, no call changes a record but its own
new one. -/
theorem room_ids_unique (json : Cjson) {s₁ : Scripts Job Room}
    (h₁ : ((rooms json).machine Quiet).Reaches Apart s₁) :
  (roomIds s₁).Nodup ∧
  ∀ j s₂, (rooms json).step s₁ (.start j) = some s₂ →
    Spared s₁ s₁ s₂ ∧
    (∀ s, ((rooms json).machine (· = s₂)).Reaches Apart s →
      Apart s (.wake s₁.fresh) → ∀ s', (rooms json).step s (.wake s₁.fresh) = some s' →
        ∀ room, s'.ended = (j, .returned room) :: s.ended → ¬ Exists s₁ room.2.key) ∧
    ∀ s, ((rooms json).machine (· = s₂)).Reaches (fun s a => Apart s a ∧ Unshared s a) s →
      ∀ a, Of s s₁.fresh a → Apart s a → Unshared s a →
        ∀ s', (rooms json).step s a = some s' → Spared s₁ s s'
  := by
  obtain ⟨c₁, hc₁⟩ := claiming_of_reaches h₁
  constructor
  · rw [hc₁.given]
    exact c₁.nodup
  · intro j s₂ hstart
    refine ⟨spared_start hstart, ?_, ?_⟩
    · intro s hs hapart s' hstep room hended
      obtain ⟨c, hc, hsince⟩ : ∃ c, Claiming json s c ∧ Since s₁ s c := by
        apply Machine.invariant (P := fun s => ∃ c, Claiming json s c ∧ Since s₁ s c) _ _ hs
        · rintro s rfl
          exact ⟨c₁, hc₁.start hstart, .begin hc₁ hstart⟩
        · rintro s a s' ⟨c, hc, hsince⟩ hapart hstep
          exact hsince.step hc hapart hstep
      exact absent_of_returned hc hsince hapart hstep hended
    · intro s hs a hof hapart hunshared s' hstep
      obtain ⟨c, hc, hsince, hunmixed⟩ :
          ∃ c, Claiming json s c ∧ Since s₁ s c ∧ Unmixed s₁ s c := by
        apply Machine.invariant
          (P := fun s => ∃ c, Claiming json s c ∧ Since s₁ s c ∧ Unmixed s₁ s c) _ _ hs
        · rintro s rfl
          exact ⟨c₁, hc₁.start hstart, .begin hc₁ hstart, .begin hc₁⟩
        · rintro s a s' ⟨c, hc, hsince, hunmixed⟩ ⟨hapart, hunshared⟩ hstep
          exact hunmixed.step hc hsince hapart hunshared hstep
      exact spared_of hc hsince hunmixed hof hapart hunshared hstep

/-! ### Rooms that get into each other's way -/

/-- A JSON library for rooms with an id and an owner. -/
def roomJson : Cjson where
  encode r := "\x7b\"roomId\":" ++ (r.get (.str "roomId")).tostring ++ ",\"ownUserId\":" ++
    (r.get (.str "ownUserId")).tostring ++ "\x7d"
  decode _ := .error "Expected value but found T_END"

/-- The services are connected, and there is no room. -/
def noRooms : Scripts Job Room where
  process _ := Script.initial ⟨[10, 11, 12, 13], Script.fourServices_ne_nil, Script.fourServices_nodup⟩
  network :=
    { conn := fun _ => ⟨fun _ => true⟩
      inbox := fun _ => []
      running := fun _ => none
      db := fun _ => ∅
      answers := fun _ => none
      sent := [] }
  waiting _ := none
  fresh := 0
  outputs := []
  ended := []

theorem noRooms_quiet :
  Quiet noRooms
  := by
  refine ⟨⟨fun _ => rfl, fun _ => rfl, fun _ => rfl, rfl⟩, rfl, ?_⟩
  rintro key n hrec
  rw [record] at hrec
  split at hrec <;> cases hrec

/-- A room id that is drawn first. -/
def firstId : RoomId :=
  ⟨100000, by decide, by decide⟩

/-- A room id that is drawn next. -/
def nextId : RoomId :=
  ⟨100001, by decide, by decide⟩

/-- The steps from the start of a call that draws `firstId` when there is no room until it has cached the
record. -/
def begun : List (Plant.Step Job ℕ) :=
  [.start ⟨.num 1, [firstId]⟩, .event 12, .event 12, .wake 0, .event 10, .event 10, .wake 0]

/-- What follows when a call that draws `firstId` and then `nextId` is started there, up to its last answer;
the first call returns in between. -/
def secondSteps : List (Plant.Step Job ℕ) :=
  [.event 10, .event 10, .event 11, .event 11, .wake 1, .wake 0, .event 12, .event 12, .event 10, .event 10,
    .wake 0, .wake 1, .event 12, .event 12, .wake 1, .event 11, .event 11]

/-- The second of two calls passes over the number of the first and creates a room with one that no room has
had. -/
theorem room_ids_unique_two :
  let M := (rooms roomJson).machine Quiet
  ∃ s₁ s₂ s s', M.exec noRooms begun = some s₁ ∧
    M.step s₁ (.start ⟨.num 2, [firstId, nextId]⟩) = some s₂ ∧ M.exec s₂ secondSteps = some s ∧
    M.step s (.wake 1) = some s' ∧ roomIds s' = [nextId, firstId] ∧ (roomIds s').Nodup ∧
    Exists s₁ firstId.key ∧ ¬ Exists s₁ nextId.key
  := by
  intro M
  have hbegun : M.Guarded Apart noRooms begun := by
    apply Machine.Guarded.cons rfl trivial
    -- the test is answered
    apply Machine.Guarded.cons rfl (by rintro r key text ⟨⟩)
    apply Machine.Guarded.cons rfl (by rintro r key text ⟨⟩ ⟨⟩)
    apply Machine.Guarded.cons rfl
    · rintro t h key rtab w ⟨⟩ ⟨⟩ - -
      rfl
    -- the room is inserted
    apply Machine.Guarded.cons rfl (by rintro r key text ⟨⟩)
    apply Machine.Guarded.cons rfl
    · rintro r key text ⟨⟩ ⟨⟩ -
      exact AList.notMem_empty _
    apply Machine.Guarded.cons rfl (by rintro t h key rtab w ⟨⟩ ⟨⟩)
    trivial
  have hsecond : ∀ init s₁ s₂, M.exec noRooms begun = some s₁ →
      M.step s₁ (.start ⟨.num 2, [firstId, nextId]⟩) = some s₂ →
      ((rooms roomJson).machine init).Guarded Apart s₂ secondSteps := by
    rintro init s₁ s₂ ⟨⟩ ⟨⟩
    -- the first update, and the test of the second number
    apply Machine.Guarded.cons rfl (by rintro r key text ⟨⟩)
    apply Machine.Guarded.cons rfl (by rintro r key text ⟨⟩ ⟨⟩)
    apply Machine.Guarded.cons rfl (by rintro r key text ⟨⟩)
    apply Machine.Guarded.cons rfl (by rintro r key text ⟨⟩ ⟨⟩)
    apply Machine.Guarded.cons rfl
    · rintro t h key rtab w ⟨⟩ ⟨⟩ - -
      rfl
    apply Machine.Guarded.cons rfl (by rintro t h key rtab w ⟨⟩ ⟨⟩)
    -- the second room is inserted
    apply Machine.Guarded.cons rfl (by rintro r key text ⟨⟩)
    apply Machine.Guarded.cons rfl
    · rintro r key text ⟨⟩ ⟨⟩ -
      decide
    -- the other updates
    apply Machine.Guarded.cons rfl (by rintro r key text ⟨⟩)
    apply Machine.Guarded.cons rfl (by rintro r key text ⟨⟩ ⟨⟩)
    apply Machine.Guarded.cons rfl (by rintro t h key rtab w ⟨⟩ ⟨⟩)
    apply Machine.Guarded.cons rfl (by rintro t h key rtab w ⟨⟩ ⟨⟩)
    apply Machine.Guarded.cons rfl (by rintro r key text ⟨⟩)
    apply Machine.Guarded.cons rfl (by rintro r key text ⟨⟩ ⟨⟩)
    apply Machine.Guarded.cons rfl (by rintro t h key rtab w ⟨⟩ ⟨⟩)
    apply Machine.Guarded.cons rfl (by rintro r key text ⟨⟩)
    apply Machine.Guarded.cons rfl (by rintro r key text ⟨⟩ ⟨⟩)
    trivial
  have hstart : ∀ s, Apart s (.start ⟨.num 2, [firstId, nextId]⟩) := fun _ => trivial
  have hlast : ∀ s, M.exec noRooms (begun ++ .start ⟨.num 2, [firstId, nextId]⟩ :: secondSteps) = some s →
      Apart s (.wake 1) := by
    rintro s ⟨⟩ t h key rtab w ⟨⟩ ⟨⟩
  have h₁ := Machine.Reaches.exec begun (.init noRooms_quiet) hbegun rfl
  obtain ⟨-, hcalls⟩ := room_ids_unique roomJson h₁
  obtain ⟨-, habsent, -⟩ := hcalls ⟨.num 2, [firstId, nextId]⟩ _ rfl
  have hown := Machine.Reaches.exec secondSteps (.init rfl) (hsecond (· = _) _ _ rfl rfl) rfl
  have hall := Machine.Reaches.exec secondSteps (.step h₁ (hstart _) rfl) (hsecond _ _ _ rfl rfl) rfl
  obtain ⟨hnodup, -⟩ := room_ids_unique roomJson (.step hall (hlast _ rfl) rfl)
  refine ⟨_, _, _, _, rfl, rfl, rfl, rfl, rfl, hnodup, .inl rfl, ?_⟩
  exact habsent _ hown (hlast _ rfl) _ rfl (⟨.room, nextId.key⟩, nextId) rfl

/-- The steps from the start of a call that draws `firstId` when there is no room to the last answer. -/
def firstSteps : List (Plant.Step Job ℕ) :=
  [.event 12, .event 12, .wake 0, .event 10, .event 10, .wake 0, .event 10, .event 10, .wake 0,
    .event 11, .event 11]

/-- Two calls that draw the same number both return it, and the second takes the room over; and a call that
draws another number takes the record of the room over that was created before. -/
theorem room_id_given_twice :
  let M := (rooms roomJson).machine Quiet
  Quiet noRooms ∧
  (∃ s, M.exec noRooms [.start ⟨.num 1, [firstId]⟩, .start ⟨.num 2, [firstId]⟩, .event 12, .event 12,
      .event 10, .event 10, .wake 0, .event 11, .event 11, .wake 0, .event 11, .event 11, .wake 0, .wake 1,
      .event 12, .event 12, .wake 0, .event 11, .event 11, .wake 1] = some s ∧
    roomIds s = [firstId, firstId]) ∧
  ∃ s s', M.exec noRooms (.start ⟨.num 1, [firstId]⟩ :: firstSteps ++ [.wake 0]) = some s ∧
    M.exec s [.start ⟨.num 2, [nextId]⟩, .event 12, .event 12, .wake 1, .event 10, .event 10, .wake 1]
      = some s' ∧
    roomIds s = [firstId] ∧
    rawField (s.process ()) ⟨.room, firstId.key⟩ (.str "roomId") = firstId.key ∧
    rawField (s'.process ()) ⟨.room, firstId.key⟩ (.str "roomId") = nextId.key
  := by
  intro M
  use noRooms_quiet
  constructor
  · exact ⟨_, rfl, rfl⟩
  · exact ⟨_, _, rfl, rfl, rfl, rfl, rfl⟩

end Database.RoomRecord
