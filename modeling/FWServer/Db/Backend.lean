import FWServer.Db.DbRedis
import FWServer.Kernel.Threads

/-!
# The services behind the scripts

The calls of the scripts are queued in the mailboxes of the `dbredis` services.  A service takes
the commands out of its mailbox one after the other, and runs each to its end before it takes the
next: in skynet it would start on the next one while the coroutine of the last waits for redis.
That is left out of the model.  Redis runs the commands of all services one at a time; in which
order the services take their turns is left open.

For a command of the scripts a service writes one record at most, and that with the last command
it sends to redis.  Seen from the scripts, a turn of a service therefore either changes nothing or
finishes the first command the service has before it.
-/

open Lua DbRedis

namespace Backend

/-! ### The mailboxes -/

/-- A command in a mailbox, with the coroutine that waits for its answer. -/
structure Request where
  session : ℕ
  cmd : Cmd

/-- The command a service has begun with, suspended in a command to redis. -/
structure Running where
  request : Request
  query : Redis.Command
  resumed : Except String Redis.Reply → Service Answer

/-- The services, their mailboxes and redis, and the answers on their way back by coroutine.
`sent` records what the scripts have sent so far, newest first; no service reads it. -/
structure State where
  conn : ℕ → DbRedis.State
  inbox : ℕ → List Request
  running : ℕ → Option Running
  db : Redis
  answers : ℕ → Option (Except String Answer)
  sent : List Request

/-- A call of the coroutine `n` is put at the end of a mailbox.  Nothing answers
`onLoginUser`. -/
def issue (n : ℕ) : Script.Call → State → State
  | .redis dest cmd, w =>
      { w with
        inbox := Function.update w.inbox dest (w.inbox dest ++ [⟨n, cmd⟩])
        sent := ⟨n, cmd⟩ :: w.sent }
  | .onLoginUser _ _ _, w => w

/-- The service `h` runs `c` for a request up to its next command to redis, or answers. -/
def advance (h : ℕ) (req : Request) (c : Service Answer) (w : State) : State :=
  let x := c.resume (w.conn h)
  let w : State := { w with conn := Function.update w.conn h x.state }
  match x.halt with
  | .returned a =>
      { w with
        running := Function.update w.running h none
        answers := Function.update w.answers req.session (some (.ok a)) }
  | .raised e =>
      { w with
        running := Function.update w.running h none
        answers := Function.update w.answers req.session (some (.error e)) }
  | .waiting q k =>
      { w with running := Function.update w.running h (some ⟨req, q, k⟩) }

/-- A turn of the service `h`: redis runs the command the service waits for, or the service, which
has finished with the last command, takes the next one out of its mailbox. -/
def react (json : Cjson) (h : ℕ) (w : State) : Option State :=
  match w.running h with
  | some r =>
      let x := Redis.exec r.query w.db
      some (advance h r.request (r.resumed x.1) { w with db := x.2 })
  | none =>
      match w.inbox h with
      | [] => none
      | req :: rest =>
          some (advance h req (CMD.dispatch json req.cmd)
            { w with inbox := Function.update w.inbox h rest })

/-- Takes the answer for the coroutine `n`. -/
def collect (n : ℕ) (w : State) : Option (Except String Answer × State) :=
  (w.answers n).map fun r => (r, { w with answers := Function.update w.answers n none })

/-- The coroutines of the scripts over the services. -/
def plant (json : Cjson) {J α : Type} (code : J → Script α) :
    Plant Script.interface Unit State J ℕ α where
  home _ := ()
  code := code
  issue := issue
  react := react json
  collect := collect

/-- What the service `h` has before it: the command it has begun with, and its mailbox. -/
def load (w : State) (h : ℕ) : List Request :=
  ((w.running h).map Running.request).toList ++ w.inbox h

/-! ### What a command comes to -/

/-- A record in redis: its table, its field and its text. -/
structure Write where
  tname : TName
  field : String
  text : String

/-- The record a command writes. -/
def writeOf (json : Cjson) : Cmd → Option Write
  | .update tname rectab =>
      let key := rectab.get (dbtable tname).pkey
      if key.truthy then some ⟨tname, key.tostring, json.encode rectab⟩ else none
  | .insert tname key =>
      if !key.truthy && (dbtable tname).auto then none
      else
        let default := (dbtable tname).detail
        some ⟨tname, (key.orElse (default.get (dbtable tname).pkey)).tostring, json.encode default⟩
  | _ => none

/-- What the scripts rely on in the answer to a command. -/
def Replies : Cmd → Except String Answer → Prop
  | .update tname rectab, x =>
      (rectab.get (dbtable tname).pkey).truthy = true → x = .ok (.value (.bool true))
  | .insert _ key, x => key.truthy = true → x = .ok (.value key)
  | _, _ => True

/-- The coroutine writes the record `W` with its last command, or none; before, it changes no
record.  How it ends satisfies `R`. -/
def Performs (W : Option Write) (R : Except String Answer → Prop) : Service Answer → Prop
  | .ret a => W = none ∧ R (.ok a)
  | .raise e => W = none ∧ R (.error e)
  | .read k => ∀ s, Performs W R (k s)
  | .write _ k => Performs W R k
  | .emit _ k => Performs W R k
  | .call q k =>
      (∃ w a, W = some w ∧ q = .hmset w.tname w.field w.text ∧ R (.ok a) ∧
        ∀ r, k (.ok r) = .ret a) ∨
      ∀ db, SameRecords db (Redis.exec q db).2 ∧ Performs W R (k (Redis.exec q db).1)

section Performs

variable {W : Option Write} {R : Except String Answer → Prop}

/-- A command that changes no record, and what follows it. -/
theorem performs_command {q : Redis.Command} {g : Redis.Reply → Service Answer}
    (hq : ∀ db, SameRecords db (Redis.exec q db).2)
    (hok : ∀ a, Performs W R (g a)) (herror : ∀ db e, (Redis.exec q db).1 = .error e →
      W = none ∧ R (.error e)) :
  Performs W R (command q >>= g)
  := by
  right
  intro db
  use hq db
  cases hr : (Redis.exec q db).1 with
  | ok a => exact hok a
  | error e => exact herror db e hr

/-- A service connects without changing a record. -/
theorem performs_connected (tname : TName) {g : Unit → Service Answer}
    (hg : Performs W R (g ())) :
  Performs W R (lredishandler tname >>= g)
  := by
  rw [lredishandler, Coroutine.bind_bind]
  intro s
  change Performs W R ((if s.lconntab tname then pure () else _) >>= g)
  split
  · exact hg
  · rw [Coroutine.bind_bind]
    apply performs_command
    · exact SameRecords.refl
    · rintro -
      rw [Coroutine.bind_bind]
      rintro s'
      change Performs W R ((if (dbtable tname).auto then setupCounter tname else pure ()) >>= g)
      split
      · next hauto =>
          rw [setupCounter, Coroutine.bind_bind]
          apply performs_command
          · exact SameRecords.refl
          · intro keytab
            dsimp only
            split
            · rw [Coroutine.bind_bind]
              apply performs_command
              · exact fun db => .counter db hauto _
              · exact fun _ => hg
              · exact fun db e h => nomatch h
            · exact hg
          · exact fun db e h => nomatch h
      · exact hg
    · exact fun db e h => nomatch h

/-- The command that stores a record comes last. -/
theorem performs_store {w : Write} {a : Answer} (ha : R (.ok a)) :
  Performs (some w) R (command (.hmset w.tname w.field w.text) >>= fun _ => .ret a)
  := .inl ⟨w, a, rfl, rfl, ha, fun _ => rfl⟩

end Performs

/-- A command of the scripts writes its record, and is answered as they rely on. -/
theorem dispatch_performs (json : Cjson) (cmd : Cmd) :
  Performs (writeOf json cmd) (Replies cmd) (CMD.dispatch json cmd)
  := by
  cases cmd with
  | query tname key =>
      dsimp only [CMD.dispatch, CMD.query]
      rw [Coroutine.map_bind]
      apply performs_connected
      split
      · rw [Coroutine.map_bind]
        apply performs_command
        · intro db
          cases Redis.arguments [key] <;> exact .refl db
        · intro rettab
          cases (bulks rettab).head?.join with
          | none => exact ⟨rfl, trivial⟩
          | some recstr =>
              dsimp only
              split
              · exact ⟨rfl, trivial⟩
              · cases lunpackrecord json tname recstr with
                | ok rtab => exact ⟨rfl, trivial⟩
                | error e => exact ⟨rfl, trivial⟩
        · exact fun _ _ _ => ⟨rfl, trivial⟩
      · rw [Coroutine.map_bind]
        apply performs_command
        · exact SameRecords.refl
        · intro resultTab
          cases unpackAll json tname (bulks resultTab) with
          | ok recs => exact ⟨rfl, trivial⟩
          | error e => exact ⟨rfl, trivial⟩
        · exact fun _ _ _ => ⟨rfl, trivial⟩
  | update tname rectab =>
      have hkey : (lpackrecord json tname rectab .nil).2 = rectab.get (dbtable tname).pkey := rfl
      dsimp only [CMD.dispatch, CMD.update, writeOf]
      rw [hkey]
      split
      · rw [Coroutine.map_bind]
        apply performs_connected
        rw [Coroutine.map_bind]
        apply performs_store
        exact fun _ => rfl
      · next hkey => exact ⟨rfl, fun h => absurd h hkey⟩
  | insert tname key =>
      dsimp only [CMD.dispatch, CMD.insert, writeOf]
      rw [Coroutine.map_bind]
      apply performs_connected
      split
      · next hcount =>
          obtain ⟨hkey, hauto⟩ : key.truthy = false ∧ (dbtable tname).auto = true := by
            simpa using hcount
          have hreplies : ∀ x, Replies (.insert tname key) x := by
            intro x h
            rw [hkey] at h
            cases h
          rw [lautoincrement, Coroutine.map_bind]
          intro s
          change Performs _ _ (Answer.value <$> (if s.lconntab tname then _ else _))
          split
          · rw [Coroutine.map_bind]
            apply performs_command
            · exact fun db => .hincrby db hauto
            · intro a
              cases a <;> exact ⟨rfl, hreplies _⟩
            · exact fun _ _ _ => ⟨rfl, hreplies _⟩
          · exact ⟨rfl, hreplies _⟩
      · rw [Coroutine.map_bind]
        apply performs_store
        intro hkey
        rw [lpackrecord, Value.orElse_of_truthy hkey]
  | remove tname key =>
      dsimp only [CMD.dispatch, CMD.remove]
      split
      · rw [Coroutine.bind_bind]
        apply performs_connected
        rw [Coroutine.bind_bind]
        apply performs_command
        · exact SameRecords.refl
        · exact fun _ => ⟨rfl, trivial⟩
        · exact fun _ _ _ => ⟨rfl, trivial⟩
      · exact ⟨rfl, trivial⟩
  | closeAll => exact fun _ => ⟨rfl, trivial⟩

/-! ### The turns of the services -/

/-- After a stretch the service is still at its command, or has finished it without a record. -/
theorem Performs.resume {W : Option Write} {R : Except String Answer → Prop}
    {c : Service Answer} (h : Performs W R c) (s : DbRedis.State) :
  match (c.resume s).halt with
  | .returned a => W = none ∧ R (.ok a)
  | .raised e => W = none ∧ R (.error e)
  | .waiting q k => Performs W R (.call q k)
  := by
  induction c generalizing s with
  | ret a => exact h
  | raise e => exact h
  | read k ih => exact ih s (h s) s
  | write t k ih => exact ih h t
  | emit o k ih => exact ih h s
  | call q k => exact h

/-- What every service has begun with is to be done as the scripts rely on. -/
def Performing (json : Cjson) (w : State) : Prop :=
  ∀ h r, w.running h = some r →
    Performs (writeOf json r.request.cmd) (Replies r.request.cmd) (.call r.query r.resumed)

/-- The turn changes no record and answers nothing. -/
structure Continued (w w' : State) : Prop where
  load : load w' = load w
  answers : w'.answers = w.answers
  records : SameRecords w.db w'.db

/-- The turn finishes the first command the service `h` has before it: the record of the command
is stored, and the answer is on its way. -/
structure Finished (json : Cjson) (h : ℕ) (req : Request) (w w' : State) : Prop where
  load : ∃ rest, Backend.load w h = req :: rest ∧
    Backend.load w' = Function.update (Backend.load w) h rest
  answers : ∃ x, Replies req.cmd x ∧ w'.answers = Function.update w.answers req.session (some x)
  stored : ∀ v, writeOf json req.cmd = some v →
    (∃ r, w.running h = some r ∧ r.request = req ∧
      r.query = .hmset v.tname v.field v.text) ∧
    w'.db = Function.update w.db v.tname ((w.db v.tname).insert v.field v.text)
  records : writeOf json req.cmd = none → SameRecords w.db w'.db

section Finished

variable {json : Cjson} {h h' : ℕ} {req r : Request} {w w' : State}

theorem Finished.first (hfinished : Finished json h req w w') :
  req ∈ Backend.load w h
  := by
  obtain ⟨rest, hload, -⟩ := hfinished.load
  rw [hload]
  exact List.mem_cons_self

/-- What is left was there before. -/
theorem Finished.mem_before (hfinished : Finished json h req w w')
    (hr : r ∈ Backend.load w' h') :
  r ∈ Backend.load w h'
  := by
  obtain ⟨rest, hload, hrest⟩ := hfinished.load
  rw [hrest] at hr
  rcases eq_or_ne h' h with rfl | hne
  · rw [Function.update_self] at hr
    rw [hload]
    exact List.mem_cons_of_mem _ hr
  · rwa [Function.update_of_ne hne] at hr

/-- What was there before is finished or left. -/
theorem Finished.eq_or_mem (hfinished : Finished json h req w w')
    (hr : r ∈ Backend.load w h') :
  (h' = h ∧ r = req) ∨ r ∈ Backend.load w' h'
  := by
  obtain ⟨rest, hload, hrest⟩ := hfinished.load
  rw [hrest]
  rcases eq_or_ne h' h with rfl | hne
  · rw [hload] at hr
    rw [Function.update_self]
    rcases List.mem_cons.mp hr with rfl | hr
    · exact .inl ⟨rfl, rfl⟩
    · exact .inr hr
  · rw [Function.update_of_ne hne]
    exact .inr hr

end Finished

section Turn

variable {json : Cjson} {h : ℕ} {req : Request} {W : Option Write}
  {R : Except String Answer → Prop} {c : Service Answer} {w w' : State}

/-- A service that has run on is still at its request, or has answered it. -/
theorem advance_cases (h : ℕ) (req : Request) (hc : Performs W R c) :
  ∃ conn,
    (∃ q k, Performs W R (.call q k) ∧ advance h req c w = { w with
      conn := conn
      running := Function.update w.running h (some ⟨req, q, k⟩) }) ∨
    (∃ x, R x ∧ W = none ∧ advance h req c w = { w with
      conn := conn
      running := Function.update w.running h none
      answers := Function.update w.answers req.session (some x) })
  := by
  have hhalt := hc.resume (w.conn h)
  use Function.update w.conn h (c.resume (w.conn h)).state
  rw [advance]
  cases hhow : (c.resume (w.conn h)).halt with
  | returned a =>
      rw [hhow] at hhalt
      obtain ⟨hW, hR⟩ := hhalt
      exact .inr ⟨.ok a, hR, hW, rfl⟩
  | raised e =>
      rw [hhow] at hhalt
      obtain ⟨hW, hR⟩ := hhalt
      exact .inr ⟨.error e, hR, hW, rfl⟩
  | waiting q k =>
      rw [hhow] at hhalt
      exact .inl ⟨q, k, hhalt, rfl⟩

/-- What the other services have begun with is still to be done, and so is `r`. -/
theorem Performing.update (hw : Performing json w) {r : Option Running}
    (hr : ∀ r' ∈ r, Performs (writeOf json r'.request.cmd) (Replies r'.request.cmd)
      (.call r'.query r'.resumed)) (hrunning : w'.running = Function.update w.running h r) :
  Performing json w'
  := by
  intro h' r' hr'
  rw [hrunning] at hr'
  rcases eq_or_ne h' h with rfl | hne
  · rw [Function.update_self] at hr'
    exact hr r' hr'
  · rw [Function.update_of_ne hne] at hr'
    exact hw h' r' hr'

theorem load_of_idle (hidle : w.running h = none) :
  load w h = w.inbox h
  := by rw [load, hidle, Option.map_none, Option.toList_none, List.nil_append]

theorem load_of_running {r : Running} (hr : w.running h = some r) :
  load w h = r.request :: w.inbox h
  := by rw [load, hr, Option.map_some, Option.toList_some, List.singleton_append]

/-- What a service has before it changes with what it has begun with and its mailbox. -/
theorem load_update (r : Option Running) (rest : List Request)
    (hrunning : w'.running = Function.update w.running h r)
    (hinbox : w'.inbox = Function.update w.inbox h rest) :
  load w' = Function.update (load w) h ((r.map Running.request).toList ++ rest)
  := by
  funext h'
  rw [load, hrunning, hinbox]
  rcases eq_or_ne h' h with rfl | hne
  · rw [Function.update_self, Function.update_self, Function.update_self]
  · rw [Function.update_of_ne hne, Function.update_of_ne hne, Function.update_of_ne hne, load]

/-- A service that has begun with the first command before it has the same before it. -/
theorem load_continued {r : Running} {rest : List Request}
    (hload : load w h = r.request :: rest)
    (hrunning : w'.running = Function.update w.running h (some r))
    (hinbox : w'.inbox = Function.update w.inbox h rest) :
  load w' = load w
  := by
  rw [load_update (some r) rest hrunning hinbox, Option.map_some, Option.toList_some,
    List.singleton_append, ← hload, Function.update_eq_self]

/-- A service that has finished the first command before it has the rest before it. -/
theorem load_finished {rest : List Request} (hload : load w h = req :: rest)
    (hrunning : w'.running = Function.update w.running h none)
    (hinbox : w'.inbox = Function.update w.inbox h rest) :
  ∃ rest, load w h = req :: rest ∧ load w' = Function.update (load w) h rest
  := ⟨rest, hload, load_update none rest hrunning hinbox⟩

/-- What a service makes of the first command before it when redis has changed no record. -/
theorem advance_turn (hw : Performing json w) {rest : List Request} {w₀ : State}
    (hload : load w h = req :: rest) (hrunning : w₀.running = w.running)
    (hinbox : w₀.inbox = Function.update w.inbox h rest) (hanswers : w₀.answers = w.answers)
    (hsent : w₀.sent = w.sent) (hrecords : SameRecords w.db w₀.db)
    (hc : Performs (writeOf json req.cmd) (Replies req.cmd) c) :
  let w' := advance h req c w₀
  Performing json w' ∧ w'.sent = w.sent ∧ (Continued w w' ∨ ∃ req, Finished json h req w w')
  := by
  intro w'
  obtain ⟨conn, ⟨q, k, hcall, hadvance⟩ | ⟨x, hx, hnone, hadvance⟩⟩ :=
    advance_cases (w := w₀) h req hc
  · have hw' : w' = { w₀ with
        conn := conn
        running := Function.update w₀.running h (some ⟨req, q, k⟩) } := hadvance
    clear_value w'
    subst hw'
    have hrunning' : Function.update w₀.running h (some ⟨req, q, k⟩)
        = Function.update w.running h (some ⟨req, q, k⟩) := by rw [hrunning]
    refine ⟨?_, hsent, .inl ?_⟩
    · apply hw.update _ hrunning'
      intro r hr
      obtain rfl := Option.some.inj hr
      exact hcall
    · constructor
      · exact load_continued (r := ⟨req, q, k⟩) hload hrunning' hinbox
      · exact hanswers
      · exact hrecords
  · have hw' : w' = { w₀ with
        conn := conn
        running := Function.update w₀.running h none
        answers := Function.update w₀.answers req.session (some x) } := hadvance
    clear_value w'
    subst hw'
    have hrunning' : Function.update w₀.running h none = Function.update w.running h none := by
      rw [hrunning]
    refine ⟨?_, hsent, .inr ⟨req, ?_⟩⟩
    · apply hw.update _ hrunning'
      intro r hr
      cases hr
    · constructor
      · exact load_finished hload hrunning' hinbox
      · use x, hx
        exact congrArg (Function.update · req.session (some x)) hanswers
      · intro v hv
        cases hnone.symm.trans hv
      · exact fun _ => hrecords

/-- A turn goes on with the first command the service has before it, or finishes it. -/
theorem turn_cases (hw : Performing json w) (hturn : react json h w = some w') :
  Performing json w' ∧ w'.sent = w.sent ∧ (Continued w w' ∨ ∃ req, Finished json h req w w')
  := by
  rw [react] at hturn
  cases hrunning : w.running h with
  | some r =>
      rw [hrunning] at hturn
      obtain rfl := Option.some.inj hturn
      have hload : load w h = r.request :: w.inbox h := load_of_running hrunning
      have hinbox : w.inbox = Function.update w.inbox h (w.inbox h) :=
        (Function.update_eq_self _ _).symm
      rcases hw h r hrunning with ⟨v, a, hv, hq, ha, hresumed⟩ | hcommand
      · -- redis stores the record, and the service answers
        have hadvance : advance h r.request (r.resumed (Redis.exec r.query w.db).1)
            { w with db := (Redis.exec r.query w.db).2 } = { w with
              conn := Function.update w.conn h (w.conn h)
              db := Function.update w.db v.tname ((w.db v.tname).insert v.field v.text)
              running := Function.update w.running h none
              answers := Function.update w.answers r.request.session (some (.ok a)) } := by
          rw [hq]
          dsimp only [Redis.exec]
          rw [hresumed]
          rfl
        rw [hadvance]
        refine ⟨?_, rfl, .inr ⟨r.request, ?_⟩⟩
        · apply hw.update (h := h) (r := none) _ rfl
          intro r hr
          cases hr
        · constructor
          · apply load_finished hload
            · rfl
            · exact hinbox
          · exact ⟨_, ha, rfl⟩
          · intro v' hv'
            obtain rfl := Option.some.inj (hv.symm.trans hv')
            exact ⟨⟨r, hrunning, rfl, hq⟩, rfl⟩
          · intro hnone
            cases hv.symm.trans hnone
      · obtain ⟨hrecords, hperforms⟩ := hcommand w.db
        apply advance_turn hw hload
        · rfl
        · exact hinbox
        · rfl
        · rfl
        · exact hrecords
        · exact hperforms
  | none =>
      rw [hrunning] at hturn
      cases hinbox : w.inbox h with
      | nil =>
          rw [hinbox] at hturn
          cases hturn
      | cons req rest =>
          rw [hinbox] at hturn
          obtain rfl := Option.some.inj hturn
          have hload : load w h = req :: rest := (load_of_idle hrunning).trans hinbox
          apply advance_turn hw hload
          · rfl
          · rfl
          · rfl
          · rfl
          · exact .refl w.db
          · exact dispatch_performs json req.cmd

/-- A turn in which redis counts up from `c`. -/
theorem react_hincrby {r : Running} {tname : TName} {f : String} {n : ℤ} (c : ℤ)
    (hr : w.running h = some r) (hq : r.query = .hincrby tname f n)
    (hc : ((w.db tname).lookup f).getD "0" = c.repr) (hrange : Redis.inRange (c + n) = true) :
  react json h w = some (advance h r.request (r.resumed (.ok (.int (c + n)))) { w with
    db := Function.update w.db tname ((w.db tname).insert f (c + n).repr) })
  := by
  have hexec : Redis.exec r.query w.db = (.ok (.int (c + n)),
      Function.update w.db tname ((w.db tname).insert f (c + n).repr)) := by
    rw [hq, Redis.exec, Redis.hincrby, hc, Redis.tonumber_repr]
    dsimp only
    rw [hrange, if_pos rfl]
  rw [react, hr]
  dsimp only
  rw [hexec]

end Turn

/-! ### Calls and answers -/

/-- The scripts, the services and the coroutines of jobs `J`. -/
abbrev Scripts (J α : Type) : Type :=
  Plant.State Script.interface Unit State J α

/-- No script has called a service yet. -/
structure Uncalled {J α : Type} (s : Scripts J α) : Prop where
  waiting : ∀ n, s.waiting n = none
  load : ∀ h, load s.network h = []
  answers : ∀ n, s.network.answers n = none
  sent : s.network.sent = []

/-- What a service has before it is what a coroutine waits for, and is answered once and as the
scripts rely on. -/
structure Routed {J α : Type} (json : Cjson) (s : Scripts J α) : Prop where
  performing : Performing json s.network
  loaded : ∀ h, ∀ req ∈ load s.network h, ∃ t, s.waiting req.session = some t ∧
    t.query = .redis h req.cmd
  nodup : ∀ h, ((load s.network h).map Request.session).Nodup
  answered : ∀ n x, s.network.answers n = some x →
    (∃ t h cmd, s.waiting n = some t ∧ t.query = .redis h cmd ∧ Replies cmd x) ∧
      ∀ h, ∀ req ∈ load s.network h, req.session ≠ n
  fresh : ∀ n t, s.waiting n = some t → n < s.fresh

theorem load_issue (n dest : ℕ) (cmd : Cmd) (w : State) :
  load (issue n (.redis dest cmd) w)
    = Function.update (load w) dest (load w dest ++ [⟨n, cmd⟩])
  := by
  have hload : load (issue n (.redis dest cmd) w) = Function.update (load w) dest
      (((w.running dest).map Running.request).toList ++ (w.inbox dest ++ [⟨n, cmd⟩])) := by
    apply load_update
    · exact (Function.update_eq_self _ _).symm
    · rfl
  rw [hload, ← List.append_assoc, load]

section Routed

variable {J α : Type} {json : Cjson} {code : J → Script α} {s s' : Scripts J α} {n : ℕ}

theorem Uncalled.routed (hs : Uncalled s) :
  Routed json s
  := by
  constructor
  · intro h r hr
    have hload := hs.load h
    rw [load_of_running hr] at hload
    cases hload
  · intro h req hreq
    rw [hs.load] at hreq
    cases hreq
  · intro h
    rw [hs.load]
    exact List.nodup_nil
  · intro n x hx
    rw [hs.answers] at hx
    cases hx
  · intro n t ht
    rw [hs.waiting] at ht
    cases ht

/-- Nothing before the services belongs to a coroutine that does not wait. -/
theorem Routed.session_ne (hs : Routed json s) (hidle : s.waiting n = none) {h : ℕ}
    {req : Request} (hreq : req ∈ load s.network h) :
  req.session ≠ n
  := by
  rintro rfl
  obtain ⟨t, ht, -⟩ := hs.loaded h req hreq
  cases hidle.symm.trans ht

/-- What the processes and the jobs have done does not matter. -/
theorem Routed.congr (hs : Routed json s) (hnetwork : s'.network = s.network)
    (hwaiting : s'.waiting = s.waiting) (hfresh : s'.fresh = s.fresh) :
  Routed json s'
  := by
  obtain ⟨process, network, waiting, fresh, outputs, ended⟩ := s'
  dsimp only at hnetwork hwaiting hfresh
  subst hnetwork hwaiting hfresh
  exact ⟨hs.performing, hs.loaded, hs.nodup, hs.answered, hs.fresh⟩

/-- A stretch of a coroutine sends one command at most. -/
theorem Routed.run (hs : Routed json s) (hn : n < s.fresh) (hidle : s.waiting n = none) (j : J)
    (c : Script α) :
  Routed json ((plant json code).run n j c s)
  := by
  have hended : Function.update s.waiting n none = s.waiting := by
    rw [← hidle, Function.update_eq_self]
  obtain ⟨a, -, hrun⟩ | ⟨e, -, hrun⟩ | ⟨q, k, -, hrun⟩ := (plant json code).run_cases n j c s
  · rw [hrun, hended]
    exact hs.congr rfl rfl rfl
  · rw [hrun, hended]
    exact hs.congr rfl rfl rfl
  · rw [hrun]
    -- the other coroutines wait as before
    have hwaiting : ∀ m t, s.waiting m = some t →
        Function.update s.waiting n (some ⟨j, q, k⟩) m = some t := by
      intro m t ht
      have hm : m ≠ n := by
        rintro rfl
        cases hidle.symm.trans ht
      rw [Function.update_of_ne hm, ht]
    have hfresh : ∀ m t, Function.update s.waiting n (some ⟨j, q, k⟩) m = some t → m < s.fresh := by
      intro m t ht
      rcases eq_or_ne m n with rfl | hm
      · exact hn
      · rw [Function.update_of_ne hm] at ht
        exact hs.fresh m t ht
    have hold : ∀ h, ∀ req ∈ load s.network h, ∃ t,
        Function.update s.waiting n (some ⟨j, q, k⟩) req.session = some t ∧
          t.query = .redis h req.cmd := by
      intro h req hreq
      obtain ⟨t, ht, hquery⟩ := hs.loaded h req hreq
      exact ⟨t, hwaiting _ t ht, hquery⟩
    have hanswered : ∀ m x, s.network.answers m = some x → m ≠ n ∧ ∃ t h cmd,
        Function.update s.waiting n (some ⟨j, q, k⟩) m = some t ∧ t.query = .redis h cmd ∧
          Replies cmd x := by
      intro m x hx
      obtain ⟨⟨t, h, cmd, ht, hquery, hreplies⟩, -⟩ := hs.answered m x hx
      refine ⟨?_, t, h, cmd, hwaiting m t ht, hquery, hreplies⟩
      rintro rfl
      cases hidle.symm.trans ht
    cases q with
    | onLoginUser fd userId b =>
        constructor
        · exact hs.performing
        · exact hold
        · exact hs.nodup
        · exact fun m x hx => ⟨(hanswered m x hx).2, (hs.answered m x hx).2⟩
        · exact hfresh
    | redis dest cmd =>
        have hload : load (issue n (.redis dest cmd) s.network)
            = Function.update (load s.network) dest (load s.network dest ++ [⟨n, cmd⟩]) :=
          load_issue n dest cmd s.network
        have hmem : ∀ h, ∀ req ∈ load (issue n (.redis dest cmd) s.network) h,
            req ∈ load s.network h ∨ h = dest ∧ req = ⟨n, cmd⟩ := by
          intro h req hreq
          rw [hload] at hreq
          rcases eq_or_ne h dest with rfl | hh
          · rw [Function.update_self] at hreq
            rcases List.mem_append.mp hreq with hreq | hreq
            · exact .inl hreq
            · exact .inr ⟨rfl, List.mem_singleton.mp hreq⟩
          · rw [Function.update_of_ne hh] at hreq
            exact .inl hreq
        constructor
        · exact hs.performing
        · intro h req hreq
          rcases hmem h req hreq with hreq | ⟨rfl, rfl⟩
          · exact hold h req hreq
          · exact ⟨_, Function.update_self _ _ _, rfl⟩
        · intro h
          change ((load (issue n (.redis dest cmd) s.network) h).map Request.session).Nodup
          rw [hload]
          rcases eq_or_ne h dest with rfl | hh
          · rw [Function.update_self, List.map_append]
            apply (hs.nodup h).append (List.nodup_singleton _)
            intro m hm hm'
            obtain ⟨req, hreq, rfl⟩ := List.mem_map.mp hm
            exact hs.session_ne hidle hreq (List.mem_singleton.mp hm')
          · rw [Function.update_of_ne hh]
            exact hs.nodup h
        · intro m x hx
          obtain ⟨hm, hanswer⟩ := hanswered m x hx
          use hanswer
          intro h req hreq
          rcases hmem h req hreq with hreq | ⟨-, rfl⟩
          · exact (hs.answered m x hx).2 h req hreq
          · exact hm.symm
        · exact hfresh

/-- A turn of a service. -/
theorem Routed.event (hs : Routed json s) {h : ℕ} {w : State}
    (hturn : react json h s.network = some w) :
  Routed json { s with network := w }
  := by
  obtain ⟨hperforming, -, hcontinued | ⟨req, hfinished⟩⟩ := turn_cases hs.performing hturn
  · constructor
    · exact hperforming
    · dsimp only
      rw [hcontinued.load]
      exact hs.loaded
    · dsimp only
      rw [hcontinued.load]
      exact hs.nodup
    · dsimp only
      rw [hcontinued.load, hcontinued.answers]
      exact hs.answered
    · exact hs.fresh
  · obtain ⟨rest, hload, hrest⟩ := hfinished.load
    obtain ⟨x, hx, hanswers⟩ := hfinished.answers
    have hnodup := hs.nodup h
    rw [hload, List.map_cons, List.nodup_cons] at hnodup
    have hmem : ∀ h', ∀ req' ∈ load w h', req' ∈ load s.network h' ∧ req'.session ≠ req.session := by
      intro h' req' hreq'
      have hbefore := hfinished.mem_before hreq'
      use hbefore
      intro heq
      rcases eq_or_ne h' h with rfl | hne
      · rw [hrest, Function.update_self] at hreq'
        exact hnodup.1 (heq ▸ List.mem_map_of_mem hreq')
      · -- a coroutine waits for one service
        obtain ⟨t, ht, hquery⟩ := hs.loaded h' req' hbefore
        obtain ⟨t', ht', hquery'⟩ := hs.loaded h req hfinished.first
        rw [heq] at ht
        obtain rfl := Option.some.inj (ht.symm.trans ht')
        rw [hquery] at hquery'
        exact hne (Script.Call.redis.inj hquery').1
    constructor
    · exact hperforming
    · exact fun h' req' hreq' => hs.loaded h' req' (hmem h' req' hreq').1
    · intro h'
      dsimp only
      rw [hrest]
      rcases eq_or_ne h' h with rfl | hne
      · rw [Function.update_self]
        exact hnodup.2
      · rw [Function.update_of_ne hne]
        exact hs.nodup h'
    · intro m y hy
      dsimp only at hy
      rw [hanswers] at hy
      rcases eq_or_ne m req.session with rfl | hm
      · rw [Function.update_self] at hy
        obtain rfl := Option.some.inj hy
        obtain ⟨t, ht, hquery⟩ := hs.loaded h req hfinished.first
        exact ⟨⟨t, h, req.cmd, ht, hquery, hx⟩, fun h' req' hreq' => (hmem h' req' hreq').2⟩
      · rw [Function.update_of_ne hm] at hy
        obtain ⟨hwaits, hnone⟩ := hs.answered m y hy
        exact ⟨hwaits, fun h' req' hreq' => hnone h' req' (hmem h' req' hreq').1⟩
    · exact hs.fresh

/-- Taking an answer and the coroutine that waits for it away. -/
theorem Routed.collect (hs : Routed json s) {r : Except String Answer} {w : State}
    (hw : Backend.collect n s.network = some (r, w)) :
  Routed json { s with
    network := w
    waiting := Function.update s.waiting n none }
  := by
  obtain ⟨r', hr, heq⟩ := Option.map_eq_some_iff.mp hw
  cases heq
  have hnone := (hs.answered n r hr).2
  constructor
  · exact hs.performing
  · intro h req hreq
    obtain ⟨t, ht, hquery⟩ := hs.loaded h req hreq
    exact ⟨t, (Function.update_of_ne (hnone h req hreq) _ _).trans ht, hquery⟩
  · exact hs.nodup
  · intro m x hx
    rcases eq_or_ne m n with rfl | hm
    · cases (Function.update_self (f := s.network.answers) m none).symm.trans hx
    · obtain ⟨⟨t, h, cmd, ht, hquery⟩, hnone⟩ :=
        hs.answered m x ((Function.update_of_ne hm _ _).symm.trans hx)
      exact ⟨⟨t, h, cmd, (Function.update_of_ne hm _ _).trans ht, hquery⟩, hnone⟩
  · intro m t ht
    rcases eq_or_ne m n with rfl | hm
    · cases (Function.update_self (f := s.waiting) m none).symm.trans ht
    · exact hs.fresh m t ((Function.update_of_ne hm _ _).symm.trans ht)

/-- The next coroutine does not wait yet. -/
theorem Routed.idle (hs : Routed json s) :
  s.waiting s.fresh = none
  := by
  cases ht : s.waiting s.fresh with
  | none => rfl
  | some t => exact absurd (hs.fresh _ t ht) (lt_irrefl _)

theorem Routed.next (hs : Routed json s) :
  Routed json { s with fresh := s.fresh + 1 }
  := by
  constructor
  · exact hs.performing
  · exact hs.loaded
  · exact hs.nodup
  · exact hs.answered
  · exact fun n t ht => Nat.lt_succ_of_lt (hs.fresh n t ht)

/-- Calls and answers stay in order, whatever the scripts do. -/
theorem Routed.step (hs : Routed json s) {a : Plant.Step J ℕ}
    (hstep : (plant json code).step s a = some s') :
  Routed json s'
  := by
  obtain ⟨j, rfl, rfl⟩ | ⟨h, w, rfl, hw, rfl⟩ | ⟨n, t, r, w, rfl, ht, hw, rfl⟩ :=
    (plant json code).step_cases hstep
  · exact hs.next.run (Nat.lt_succ_self _) hs.idle j _
  · exact hs.event hw
  · rw [← (plant json code).run_clear]
    exact (hs.collect hw).run (hs.fresh n t ht) (Function.update_self _ _ _) t.job _

end Routed

end Backend
