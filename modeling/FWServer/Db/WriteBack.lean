import FWServer.Db.Backend
import FWServer.Db.Shutdown

/-!
# Writing a record back

Coroutines assign fields of one cached record and write the record to redis, several at a time.
Consecutive updates go to different services, which take their turns in any order, and an update
that is to drop the record from the cache does so when its answer arrives.  Redis ends up with the
record as it was last sent as long as the services store the updates in the order they were sent;
nothing is dropped that redis does not have as long as nobody assigns a field while such an update
is on its way.
-/

open Lua DbCache Backend
open Script (ofReply)

namespace Database.WriteBack

/-- What a coroutine does: the fields it assigns with `:set`, and whether the update that follows
drops the record from the cache. -/
structure Job where
  sets : List (Value × Value)
  bRmCache : Bool

section

variable (tname : TName) (reckey : Value)

/-- Assigns the fields of a record one after the other. -/
def setAll (sets : List (Value × Value)) : Script Unit :=
  sets.forM fun fv => set ⟨tname, reckey⟩ fv.1 fv.2

/-- What the coroutine of a job runs. -/
def Job.code (j : Job) : Script Unit := do
  setAll tname reckey j.sets
  updateTab tname reckey j.bRmCache

/-- The coroutines over the services. -/
def updates (json : Cjson) : Plant Script.interface Unit Backend.State Job ℕ Unit :=
  plant json (Job.code tname reckey)

/-- No script has called a service yet, and the record has its key in the primary-key field. -/
structure Loaded (s : Scripts Job Unit) : Prop where
  uncalled : Uncalled s
  keyed : ∀ rectab, record (s.process ()) tname reckey = some rectab →
    ((s.process ()).deref rectab).get (dbtable tname).pkey = reckey

/-- A service stores an update only when no update that was sent earlier is still before a
service; and fields of the cached record are assigned only while no update is on its way that is
to drop it.  (A coroutine sends its update when it starts, so the numbers of the coroutines
give the order.) -/
def InTime (s : Scripts Job Unit) : Plant.Step Job ℕ → Prop
  | .start j => j.sets = [] ∨ record (s.process ()) tname reckey = none ∨
      ∀ n t, s.waiting n = some t → t.job.bRmCache = false
  | .event h => ∀ r text, s.network.running h = some r →
      r.query = .hmset tname reckey.tostring text →
        ∀ h', ∀ req ∈ load s.network h', r.request.session ≤ req.session
  | .wake _ => True

end

/-! ### What a coroutine does to the record -/

/-- The two states have the same cache and the same service in turn, and the record has the same
key. -/
structure Assigned (tname : TName) (reckey : Value) (s s' : Script.State) : Prop where
  record : DbCache.record s' tname reckey = DbCache.record s tname reckey
  turn : handlerInTurn s' = handlerInTurn s
  key : ∀ rectab, DbCache.record s tname reckey = some rectab →
    (s'.deref rectab).get (dbtable tname).pkey = (s.deref rectab).get (dbtable tname).pkey

section Code

variable {tname : TName} {reckey : Value}

theorem Assigned.refl (s : Script.State) :
  Assigned tname reckey s s
  := ⟨rfl, rfl, fun _ _ => rfl⟩

theorem Assigned.trans {s s' s'' : Script.State} (h : Assigned tname reckey s s')
    (h' : Assigned tname reckey s' s'') :
  Assigned tname reckey s s''
  := by
  constructor
  · exact h'.record.trans h.record
  · exact h'.turn.trans h.turn
  · intro rectab hrec
    rw [h'.key rectab (h.record.trans hrec), h.key rectab hrec]

/-- One assignment keeps the key of the record. -/
theorem set_assigned (tname : TName) (reckey k fv : Value) (s : Script.State) :
  ∃ s', Assigned tname reckey s s' ∧ (record s tname reckey = none → s' = s) ∧
    ((set ⟨tname, reckey⟩ k fv).resume s = ⟨[], s', .returned ()⟩ ∨
      ∃ e, (set ⟨tname, reckey⟩ k fv).resume s = ⟨[], s', .raised e⟩)
  := by
  obtain ⟨s', rfl | ⟨rectab, v, hrec, hk, rfl⟩, hset⟩ := set_resume_cases ⟨tname, reckey⟩ k fv s
  · exact ⟨s', .refl s', fun _ => rfl, hset⟩
  · refine ⟨{ s with heap := s.heap.assign rectab k v }, ⟨rfl, rfl, ?_⟩, ?_, hset⟩
    · intro rectab' hrec'
      obtain rfl := Option.some.inj (hrec.symm.trans hrec')
      dsimp only [Script.State.deref]
      rw [Heap.assign_cells_self, Table.get_set_of_ne _ (Ne.symm hk)]
    · intro hnone
      cases hrec.symm.trans hnone

/-- The assignments of a job keep the key of the record. -/
theorem setAll_assigned (tname : TName) (reckey : Value) (sets : List (Value × Value)) (s : Script.State) :
  ∃ s', Assigned tname reckey s s' ∧ (sets = [] ∨ record s tname reckey = none → s' = s) ∧
    ((setAll tname reckey sets).resume s = ⟨[], s', .returned ()⟩ ∨
      ∃ e, (setAll tname reckey sets).resume s = ⟨[], s', .raised e⟩)
  := by
  induction sets generalizing s with
  | nil => exact ⟨s, .refl s, fun _ => rfl, .inl rfl⟩
  | cons fv sets ih =>
      have hcons : setAll tname reckey (fv :: sets)
          = set ⟨tname, reckey⟩ fv.1 fv.2 >>= fun _ => setAll tname reckey sets := rfl
      rw [hcons]
      obtain ⟨s₁, hs₁, hnone₁, hset | ⟨e, hset⟩⟩ := set_assigned tname reckey fv.1
        fv.2 s
      · obtain ⟨s₂, hs₂, hnone₂, hsets⟩ := ih s₁
        rw [Coroutine.resume_bind_of_returned hset]
        refine ⟨s₂, hs₁.trans hs₂, ?_, hsets⟩
        rintro (hnil | hnone)
        · cases hnil
        · obtain rfl := hnone₁ hnone
          exact hnone₂ (.inr hnone)
      · rw [Coroutine.resume_bind_of_raised hset]
        refine ⟨s₁, hs₁, ?_, .inr ⟨e, rfl⟩⟩
        rintro (hnil | hnone)
        · cases hnil
        · exact hnone₁ hnone

/-- A job ends at once, or sends the record as it has left it. -/
theorem code_resume (tname : TName) (reckey : Value) (j : Job) (s : Script.State) :
  ∃ s', Assigned tname reckey s s' ∧ (j.sets = [] ∨ record s tname reckey = none → s' = s) ∧
    let x := (j.code tname reckey).resume s
    (x.state = s' ∨ x.state = nextInTurn s') ∧
    ∀ q k, x.halt = .waiting q k → ∃ h rectab, record s' tname reckey = some rectab ∧
      q = .redis h (.update tname (s'.deref rectab)) ∧
        ∀ r, k r = (ofReply r >>= updated tname reckey j.bRmCache)
  := by
  obtain ⟨s', hs', hsame, hsets | ⟨e, hsets⟩⟩ := setAll_assigned tname reckey j.sets
    s
  · use s', hs', hsame
    obtain ⟨e, hupdate⟩ := updateTab_resume tname reckey j.bRmCache
    rw [Job.code, Coroutine.resume_bind_of_returned hsets, hupdate]
    cases handlerInTurn s' with
    | none => exact ⟨.inr rfl, fun q k h => nomatch h⟩
    | some redis =>
        cases hrec : record s' tname reckey with
        | none => exact ⟨.inr rfl, fun q k h => nomatch h⟩
        | some rectab =>
            use .inr rfl
            rintro q k ⟨⟩
            exact ⟨redis, rectab, rfl, rfl, fun _ => rfl⟩
  · use s', hs', hsame
    rw [Job.code, Coroutine.resume_bind_of_raised hsets]
    exact ⟨.inl rfl, fun q k h => nomatch h⟩

/-- When the answer has arrived, the record is dropped or everything stays as it is. -/
theorem updated_resume (tname : TName) (reckey : Value) (bRmCache : Bool) (r : Except String Answer)
    (s : Script.State) :
  let x := (ofReply r >>= updated tname reckey bRmCache).resume s
  (x.state = s ∨ bRmCache = true ∧ x.state.heap = s.heap ∧ record x.state tname reckey = none) ∧
    ∀ q k, x.halt ≠ .waiting q k
  := by
  rcases r with e | ret
  · exact ⟨.inl rfl, fun _ _ => nofun⟩
  · rw [Script.ofReply_ok_bind, updated]
    split
    · next hremove =>
        obtain ⟨-, hremove⟩ : ret.val.truthy = true ∧ bRmCache = true := by simpa using hremove
        refine ⟨.inr ⟨hremove, rfl, ?_⟩, fun _ _ => nofun⟩
        change (if reckey.truthy then (Function.update s.cache tname
          ((s.cache tname).erase reckey) tname).lookup reckey else none) = none
        split
        · rw [lookup_erase, if_pos ⟨rfl, rfl⟩]
        · rfl
    · exact ⟨.inl rfl, fun _ _ => nofun⟩

end Code

/-! ### Runs -/

/-- The record in redis and the updates on their way to it. -/
structure Backed (json : Cjson) (tname : TName) (reckey : Value) (s : Scripts Job Unit) :
    Prop where
  routed : Routed json s
  /-- The cached record has its key in the primary-key field. -/
  keyed : ∀ rectab, record (s.process ()) tname reckey = some rectab →
    ((s.process ()).deref rectab).get (dbtable tname).pkey = reckey
  /-- A coroutine waits for the answer to an update, and does nothing else than to drop the record
  when the answer has arrived. -/
  waiting : ∀ n t, s.waiting n = some t → ∃ h rectab, t.query = .redis h (.update tname rectab) ∧
    rectab.get (dbtable tname).pkey = reckey ∧ reckey.truthy = true ∧
      ∀ r, t.resumed r = (ofReply r >>= updated tname reckey t.job.bRmCache)
  /-- The record is still as an update has sent it that is to drop it. -/
  current : ∀ n t, s.waiting n = some t → t.job.bRmCache = true →
    ∀ h snapshot, t.query = .redis h (.update tname snapshot) →
      ∀ rectab, record (s.process ()) tname reckey = some rectab →
        (s.process ()).deref rectab = snapshot
  /-- Nothing has been sent after the last update; it is still before a service, or redis has the
  record as it was sent then and nothing is before the services. -/
  last : ∀ req rest, s.network.sent = req :: rest →
    (∀ h, ∀ req' ∈ load s.network h, req'.session ≤ req.session) ∧
    ∃ rectab, req.cmd = .update tname rectab ∧
      ((∃ h, req ∈ load s.network h) ∨
        (∀ h, load s.network h = []) ∧
          (s.network.db tname).lookup reckey.tostring = some (json.encode rectab))

section Step

variable {json : Cjson} {tname : TName} {reckey : Value} {s : Scripts Job Unit}

/-- The update of a coroutine is one of the record, and redis has the record once it is
stored. -/
theorem Backed.writeOf (hs : Backed json tname reckey s) {h : ℕ} {req : Request}
    (hreq : req ∈ load s.network h) :
  ∃ rectab, req.cmd = .update tname rectab ∧
    writeOf json req.cmd = some ⟨tname, reckey.tostring, json.encode rectab⟩
  := by
  obtain ⟨t, ht, hquery⟩ := hs.routed.loaded h req hreq
  obtain ⟨h', rectab, hquery', hkey, htruthy, -⟩ := hs.waiting _ t ht
  rw [hquery] at hquery'
  obtain ⟨-, hcmd⟩ := Script.Call.redis.inj hquery'
  use rectab, hcmd
  rw [hcmd, Backend.writeOf, hkey, htruthy, if_pos rfl]

/-- Two commands of one coroutine are one. -/
theorem Backed.eq_of_session (hs : Backed json tname reckey s) {h h' : ℕ} {req req' : Request}
    (hreq : req ∈ load s.network h) (hreq' : req' ∈ load s.network h')
    (hsession : req.session = req'.session) :
  req = req'
  := by
  obtain ⟨t, ht, hquery⟩ := hs.routed.loaded h req hreq
  obtain ⟨t', ht', hquery'⟩ := hs.routed.loaded h' req' hreq'
  rw [hsession] at ht
  obtain rfl := Option.some.inj (ht.symm.trans ht')
  rw [hquery] at hquery'
  obtain ⟨-, hcmd⟩ := Script.Call.redis.inj hquery'
  cases req
  cases req'
  dsimp only at hsession hcmd
  rw [hsession, hcmd]

/-- Turning to the next service leaves the records alone. -/
theorem record_of_turn {p s₁ : Script.State} (h : p = s₁ ∨ p = nextInTurn s₁) :
  record p tname reckey = record s₁ tname reckey ∧ p.deref = s₁.deref
  := by
  rcases h with rfl | rfl
  · use rfl
  · use rfl
    rfl

/-- A job leaves the key in the cached record. -/
theorem Backed.keyed_assigned (hs : Backed json tname reckey s) {p s₁ : Script.State}
    (hassigned : Assigned tname reckey (s.process ()) s₁) (hp : p = s₁ ∨ p = nextInTurn s₁) (rectab : Ref TName)
    (hrec : record p tname reckey = some rectab) :
  (p.deref rectab).get (dbtable tname).pkey = reckey
  := by
  obtain ⟨hrecord, hderef⟩ := record_of_turn hp
  rw [hrecord, hassigned.record] at hrec
  rw [hderef, hassigned.key rectab hrec]
  apply hs.keyed rectab hrec

/-- The updates on their way that are to drop the record have sent it as it is. -/
theorem Backed.current_assigned (hs : Backed json tname reckey s) {j : Job} {p s₁ : Script.State}
    (hintime : InTime tname reckey s (.start j)) (hassigned : Assigned tname reckey (s.process ()) s₁)
    (hsame : j.sets = [] ∨ record (s.process ()) tname reckey = none → s₁ = s.process ())
    (hp : p = s₁ ∨ p = nextInTurn s₁) {n : ℕ} {t : Waiting Script.interface Job Unit} (ht : s.waiting n = some t)
    (hremove : t.job.bRmCache = true) {h : ℕ} {snapshot : Table} (hquery : t.query = .redis h (.update tname snapshot))
    {rectab : Ref TName} (hrec : record p tname reckey = some rectab) :
  p.deref rectab = snapshot
  := by
  obtain ⟨hrecord, hderef⟩ := record_of_turn hp
  rw [hrecord, hassigned.record] at hrec
  rw [hderef]
  rcases hintime with hnil | hnone | hkeep
  · rw [hsame (.inl hnil)]
    apply hs.current n t ht hremove h snapshot hquery rectab hrec
  · cases hnone.symm.trans hrec
  · cases (hkeep n t ht).symm.trans hremove

/-- A job sends the last update. -/
theorem Backed.start (hs : Backed json tname reckey s) (j : Job)
    (hintime : InTime tname reckey s (.start j)) {s' : Scripts Job Unit}
    (hstep : (updates tname reckey json).step s (.start j) = some s') :
  Backed json tname reckey s'
  := by
  have hrouted := hs.routed.step hstep
  obtain ⟨s₁, hassigned, hsame, hstate, hhalt⟩ := code_resume tname reckey j (s.process ())
  dsimp only at hstate hhalt
  have hrun : s' = (updates tname reckey json).run s.fresh j (j.code tname reckey)
      { s with fresh := s.fresh + 1 } := (Option.some.inj hstep).symm
  have hprocess : s'.process () = ((j.code tname reckey).resume (s.process ())).state := by
    rw [hrun, Plant.run_process]
    rfl
  rw [← hprocess] at hstate
  obtain ⟨hrecord, hderef⟩ := record_of_turn hstate
  have hkeyed := hs.keyed_assigned hassigned hstate
  have hidle := hs.routed.idle
  cases hhow : ((j.code tname reckey).resume (s.process ())).halt with
  | waiting q k =>
      obtain ⟨hwaiting, hnetwork⟩ := (updates tname reckey json).run_suspended s.fresh j _
        { s with fresh := s.fresh + 1 } hhow
      obtain ⟨h, rectab, hrec, rfl, hk⟩ := hhalt q k hhow
      rw [← hrun] at hwaiting hnetwork
      rw [← hrecord] at hrec
      have hself : s'.waiting s.fresh
          = some ⟨j, .redis h (.update tname (s₁.deref rectab)), k⟩ := by
        rw [hwaiting, Function.update_self]
      have hother : ∀ n t, s'.waiting n = some t → n ≠ s.fresh → s.waiting n = some t := by
        intro n t ht hn
        rwa [hwaiting, Function.update_of_ne hn] at ht
      constructor
      · exact hrouted
      · exact hkeyed
      · intro n t ht
        rcases eq_or_ne n s.fresh with rfl | hn
        · obtain rfl := Option.some.inj (hself.symm.trans ht)
          refine ⟨h, _, rfl, ?_, record_truthy hrec, hk⟩
          rw [← hderef]
          exact hkeyed rectab hrec
        · exact hs.waiting n t (hother n t ht hn)
      · intro n t ht hremove h' snapshot hquery rectab' hrec'
        rcases eq_or_ne n s.fresh with rfl | hn
        · obtain rfl := Option.some.inj (hself.symm.trans ht)
          obtain rfl := Option.some.inj (hrec.symm.trans hrec')
          rw [hderef]
          exact (Cmd.update.inj (Script.Call.redis.inj hquery).2).2
        · exact hs.current_assigned hintime hassigned hsame hstate (hother n t ht hn) hremove hquery hrec'
      · intro req rest hlog
        have hlog' : (⟨s.fresh, .update tname (s₁.deref rectab)⟩ : Request) = req := by
          rw [hnetwork] at hlog
          exact (List.cons.inj hlog).1
        subst hlog'
        constructor
        · intro h' req' hreq'
          obtain ⟨t, ht, -⟩ := hrouted.loaded h' req' hreq'
          have hlt := hrouted.fresh _ t ht
          rw [hrun, Plant.run_fresh] at hlt
          exact Nat.le_of_lt_succ hlt
        · use s₁.deref rectab, rfl
          left
          use h
          have hload := load_issue s.fresh h (.update tname (s₁.deref rectab)) s.network
          have hissue : s'.network = issue s.fresh (.redis h (.update tname (s₁.deref rectab)))
            s.network := hnetwork
          rw [hissue, hload, Function.update_self]
          exact List.mem_append_right _ (List.mem_singleton_self _)
  | _ =>
      have hend : ∀ q k, ((j.code tname reckey).resume (s.process ())).halt ≠ .waiting q k := by
        intro q k h
        cases hhow.symm.trans h
      obtain ⟨hwaiting, hnetwork⟩ := (updates tname reckey json).run_ended s.fresh j _
        { s with fresh := s.fresh + 1 } hend
      rw [← hrun] at hwaiting hnetwork
      dsimp only at hwaiting hnetwork
      rw [← hidle, Function.update_eq_self] at hwaiting
      constructor
      · exact hrouted
      · exact hkeyed
      · rw [hwaiting]
        exact hs.waiting
      · rw [hwaiting]
        exact fun n t ht hremove h snapshot hquery rectab hrec =>
          hs.current_assigned hintime hassigned hsame hstate ht hremove hquery hrec
      · rw [hnetwork]
        exact hs.last

/-- A service has a turn. -/
theorem Backed.event (hs : Backed json tname reckey s)
    (hcounter : (dbtable tname).auto = true → reckey.tostring ≠ DbRedis.autoincrKey) {h : ℕ}
    (hintime : InTime tname reckey s (.event h)) {s' : Scripts Job Unit}
    (hstep : (updates tname reckey json).step s (.event h) = some s') :
  Backed json tname reckey s'
  := by
  have hrouted := hs.routed.step hstep
  obtain ⟨w, hw, rfl⟩ := Option.map_eq_some_iff.mp hstep
  obtain ⟨-, hsent, hturn⟩ := turn_cases hs.routed.performing hw
  use hrouted, hs.keyed, hs.waiting, hs.current
  intro req rest hlog
  dsimp only at hlog ⊢
  rw [hsent] at hlog
  obtain ⟨hle, rectab, hcmd, hstored⟩ := hs.last req rest hlog
  rcases hturn with hcontinued | ⟨req', hfinished⟩
  · rw [hcontinued.load]
    refine ⟨hle, rectab, hcmd, ?_⟩
    rcases hstored with hloaded | ⟨hempty, htext⟩
    · exact .inl hloaded
    · right
      use hempty
      rw [hcontinued.records tname _ hcounter, htext]
  · have hreq' := hfinished.first
    refine ⟨fun h' r hr => hle h' r (hfinished.mem_before hr), rectab, hcmd, ?_⟩
    rcases hstored with ⟨h₀, hreq⟩ | ⟨hempty, -⟩
    · obtain ⟨rectab', hcmd', hwrite⟩ := hs.writeOf hreq'
      obtain ⟨⟨r, hrunning, hrequest, hquery⟩, hdb⟩ := hfinished.stored _ hwrite
      have hfirst := hintime r _ hrunning hquery
      rw [hrequest] at hfirst
      rcases eq_or_ne req.session req'.session with hsession | hsession
      · -- the last update is stored, and no other one is left
        right
        obtain rfl := hs.eq_of_session hreq hreq' hsession
        constructor
        · intro h'
          apply List.eq_nil_iff_forall_not_mem.mpr
          intro r hr
          obtain ⟨x, -, hanswers⟩ := hfinished.answers
          have hanswer : w.answers req.session = some x := by rw [hanswers, Function.update_self]
          apply (hrouted.answered req.session x hanswer).2 h' r hr
          have hbefore := hfinished.mem_before hr
          exact Nat.le_antisymm (hle h' r hbefore) (hfirst h' r hbefore)
        · obtain rfl : rectab' = rectab := by
            rw [hcmd'] at hcmd
            exact (Cmd.update.inj hcmd).2
          rw [hdb, Function.update_self, AList.lookup_insert]
      · left
        use h₀
        rcases hfinished.eq_or_mem hreq with ⟨-, rfl⟩ | hreq
        · exact absurd rfl hsession
        · exact hreq
    · rw [hempty] at hreq'
      cases hreq'

/-- The answer to an update arrives: the record is dropped as it was sent, or nothing changes. -/
theorem Backed.wake (hs : Backed json tname reckey s) {n : ℕ} {s' : Scripts Job Unit}
    (hstep : (updates tname reckey json).step s (.wake n) = some s') :
  Backed json tname reckey s' ∧ ∃ t, s.waiting n = some t ∧
    (s'.process () = s.process () ∨ t.job.bRmCache = true)
  := by
  have hrouted := hs.routed.step hstep
  obtain ⟨j, h, -⟩ | ⟨h, w, h, -⟩ | ⟨n', t, r, w, h, ht, hw, hrun⟩ :=
    (updates tname reckey json).step_cases hstep
  · cases h
  · cases h
  · obtain rfl := Plant.Step.wake.inj h
    obtain ⟨h, snapshot, hquery, hkey, htruthy, hresumed⟩ := hs.waiting n t ht
    rw [hresumed] at hrun
    obtain ⟨hstate, hend⟩ := updated_resume tname reckey t.job.bRmCache r
      (s.process ())
    dsimp only at hstate hend
    obtain ⟨hwaiting, hnetwork⟩ := (updates tname reckey json).run_ended n t.job _
      { s with network := w } hend
    have hprocess : s'.process () = ((ofReply r >>= updated tname reckey t.job.bRmCache).resume
        (s.process ())).state := by
      rw [hrun, Plant.run_process]
      rfl
    rw [← hrun] at hwaiting hnetwork
    rw [← hprocess] at hstate
    have hold : ∀ m t', s'.waiting m = some t' → s.waiting m = some t' := by
      intro m t' ht'
      rw [hwaiting] at ht'
      rcases eq_or_ne m n with rfl | hm
      · rw [Function.update_self] at ht'
        cases ht'
      · rwa [Function.update_of_ne hm] at ht'
    have hrecord : ∀ rectab, record (s'.process ()) tname reckey = some rectab →
        record (s.process ()) tname reckey = some rectab := by
      intro rectab hrec
      rcases hstate with hstate | ⟨-, -, hnone⟩
      · rwa [hstate] at hrec
      · cases hnone.symm.trans hrec
    have hderef : (s'.process ()).deref = (s.process ()).deref := by
      rcases hstate with hstate | ⟨-, hheap, -⟩
      · rw [hstate]
      · exact congrArg Heap.cells hheap
    obtain ⟨r', -, heq⟩ := Option.map_eq_some_iff.mp hw
    cases heq
    constructor
    · constructor
      · exact hrouted
      · intro rectab hrec
        rw [hderef]
        exact hs.keyed rectab (hrecord rectab hrec)
      · exact fun m t' ht' => hs.waiting m t' (hold m t' ht')
      · intro m t' ht' hremove h' snapshot' hquery' rectab hrec
        rw [hderef]
        exact hs.current m t' (hold m t' ht') hremove h' snapshot' hquery' rectab (hrecord rectab hrec)
      · rw [hnetwork]
        exact hs.last
    · use t, ht
      rcases hstate with hstate | ⟨hremove, -⟩
      · exact .inl hstate
      · exact .inr hremove

end Step

/-- While the updates are in time, redis has the record as it was last sent whenever no coroutine
waits; and an answer drops the record from the cache only as its own update has sent it. -/
theorem record_written_back (json : Cjson) {tname : TName} {reckey : Value}
    (hcounter : (dbtable tname).auto = true → reckey.tostring ≠ DbRedis.autoincrKey)
    {s : Scripts Job Unit}
    (h : ((updates tname reckey json).machine (Loaded tname reckey)).Reaches
      (InTime tname reckey) s) :
  ((∀ n, s.waiting n = none) → ∀ req rest, s.network.sent = req :: rest →
    ∃ rectab, req.cmd = .update tname rectab ∧
      (s.network.db tname).lookup reckey.tostring = some (json.encode rectab)) ∧
  ∀ n s', (updates tname reckey json).step s (.wake n) = some s' →
    ∀ rectab, record (s.process ()) tname reckey = some rectab →
      record (s'.process ()) tname reckey = none →
        ∃ t h, s.waiting n = some t ∧
          t.query = .redis h (.update tname ((s.process ()).deref rectab))
  := by
  have hbacked : Backed json tname reckey s := by
    apply Machine.invariant (P := Backed json tname reckey) _ _ h
    · intro s hs
      constructor
      · exact hs.uncalled.routed
      · exact hs.keyed
      · intro n t ht
        cases (hs.uncalled.waiting n).symm.trans ht
      · intro n t ht
        cases (hs.uncalled.waiting n).symm.trans ht
      · intro req rest hlog
        cases hs.uncalled.sent.symm.trans hlog
    · intro s a s' hs hintime hstep
      cases a with
      | start j => exact hs.start j hintime hstep
      | event h => exact hs.event hcounter hintime hstep
      | wake n => exact (hs.wake hstep).1
  constructor
  · intro hdone req rest hlog
    obtain ⟨-, rectab, hcmd, ⟨h, hload⟩ | ⟨-, htext⟩⟩ := hbacked.last req rest hlog
    · obtain ⟨t, ht, -⟩ := hbacked.routed.loaded h req hload
      cases (hdone _).symm.trans ht
    · exact ⟨rectab, hcmd, htext⟩
  · intro n s' hstep rectab hrec hnone
    obtain ⟨-, t, ht, hsame | hremove⟩ := hbacked.wake hstep
    · rw [hsame] at hnone
      cases hrec.symm.trans hnone
    · obtain ⟨h, snapshot, hquery, -⟩ := hbacked.waiting n t ht
      use t, h, ht
      rw [hbacked.current n t ht hremove h snapshot hquery rectab hrec]
      exact hquery

/-! ### Two runs out of time -/

/-- A JSON library for records with a user id and gold. -/
def goldJson : Cjson where
  encode r := "\x7b\"userId\":" ++ (r.get (.str "userId")).tostring ++ ",\"gold\":" ++
    (r.get (.str "gold")).tostring ++ "\x7d"
  decode _ := .error "Expected value but found T_END"

/-- The services are connected, and a user with a hundred pieces of gold is cached. -/
def userCached : Scripts Job Unit where
  process _ := openState
  network :=
    { conn := fun _ => ⟨fun _ => true⟩
      inbox := fun _ => []
      running := fun _ => none
      db := fun _ => ∅
      answers := fun _ => none
      sent := [] }
  waiting _ := none
  fresh := 0
  outputs := []
  ended := []

/-- Gives the user gold and writes the record back. -/
def giveGold (gold : ℤ) (bRmCache : Bool) : Job :=
  ⟨[(.str "gold", .num gold)], bRmCache⟩

theorem userCached_loaded :
  Loaded .user (.num 1001) userCached
  := by
  constructor
  · exact ⟨fun _ => rfl, fun _ => rfl, fun _ => rfl, rfl⟩
  · rintro rectab ⟨⟩
    rfl

/-- A record is written back and dropped. -/
theorem record_written_back_gold :
  let M := (updates .user (.num 1001) goldJson).machine (Loaded .user (.num 1001))
  ∃ s, M.exec userCached [.start (giveGold 200 true), .event 12, .event 12, .wake 0] = some s ∧
    (s.network.db .user).lookup "1001" = some "\x7b\"userId\":1001,\"gold\":200\x7d" ∧
    record (s.process ()) .user (.num 1001) = none ∧
    ((∀ n, s.waiting n = none) → ∀ req rest, s.network.sent = req :: rest →
      ∃ rectab, req.cmd = .update .user rectab ∧
        (s.network.db .user).lookup "1001" = some (goldJson.encode rectab))
  := by
  intro M
  refine ⟨_, rfl, rfl, rfl, ?_⟩
  have hguarded : M.Guarded (InTime .user (.num 1001)) userCached
      [.start (giveGold 200 true), .event 12, .event 12, .wake 0] := by
    apply Machine.Guarded.cons rfl
    · exact .inr (.inr nofun)
    · apply Machine.Guarded.cons rfl
      · rintro r text ⟨⟩
      · apply Machine.Guarded.cons rfl
        · rintro r text ⟨⟩ -
          exact fun _ _ _ => Nat.zero_le _
        · apply Machine.Guarded.cons rfl
          · trivial
          · trivial
  have hreach := Machine.Reaches.exec _ (.init userCached_loaded) hguarded rfl
  exact (record_written_back goldJson (fun _ => by decide) hreach).1

/-- The first of two updates is stored last, and the record is lost that was sent after it; and an
update drops gold from the cache that was given while it was on its way. -/
theorem gold_lost :
  let M := (updates .user (.num 1001) goldJson).machine (Loaded .user (.num 1001))
  (∃ s, M.exec userCached [.start (giveGold 200 false), .start (giveGold 300 false), .event 10,
      .event 10, .wake 1, .event 12, .event 12, .wake 0] = some s ∧
    (∀ n, s.waiting n = none) ∧
    (∃ req rest rectab, s.network.sent = req :: rest ∧ req.cmd = .update .user rectab ∧
      rectab.get (.str "gold") = .num 300) ∧
    (s.network.db .user).lookup "1001" = some "\x7b\"userId\":1001,\"gold\":200\x7d") ∧
  (∃ s s', M.exec userCached [.start (giveGold 200 true), .start (giveGold 300 false), .event 12,
      .event 12] = some s ∧
    M.step s (.wake 0) = some s' ∧
    rawField (s.process ()) ⟨.user, .num 1001⟩ (.str "gold") = .num 300 ∧
    record (s'.process ()) .user (.num 1001) = none ∧
    (s'.network.db .user).lookup "1001" = some "\x7b\"userId\":1001,\"gold\":200\x7d")
  := by
  intro M
  constructor
  · refine ⟨_, rfl, ?_, ⟨_, _, _, rfl, rfl, rfl⟩, rfl⟩
    rintro (_ | _ | n) <;> rfl
  · exact ⟨_, _, rfl, rfl, rfl, rfl, rfl⟩

end Database.WriteBack
