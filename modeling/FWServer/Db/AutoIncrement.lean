import FWServer.Db.DbRedis
import FWServer.Kernel.Threads

/-!
# The keys that are counted up

Any number of `dbredis` services share one redis, and the coroutines of each service take turns
at the commands they send.  A new key of an auto-increment table comes from `HINCRBY` on the
counter, which the services set up when they first connect: a test and a write with other
commands in between.  The keys are new as long as the write does not come after a key has been
handed out, nor a key before the write.
-/

open Lua

namespace DbRedis.Counter

/-! ### The services and redis -/

/-- A command for a service, short of closing its connections. -/
structure Job where
  service : ℕ
  cmd : Cmd
  ne_closeAll : cmd ≠ .closeAll

/-- Redis, the commands on their way to it and the replies on their way back, by coroutine. -/
structure Net where
  db : Redis
  sent : ℕ → Option Redis.Command
  replies : ℕ → Option (Except String Redis.Reply)

/-- The services: redis runs the commands in any order, and each reply resumes the coroutine
that waits for it. -/
def services (json : Cjson) : Plant interface ℕ Net Job ℕ Answer where
  home j := j.service
  code j := CMD.dispatch json j.cmd
  issue n q w := { w with sent := Function.update w.sent n (some q) }
  react n w := (w.sent n).map fun q =>
    { db := (Redis.exec q w.db).2
      sent := Function.update w.sent n none
      replies := Function.update w.replies n (some (Redis.exec q w.db).1) }
  collect n w := (w.replies n).map fun r =>
    (r, { w with replies := Function.update w.replies n none })

/-- The states of the services, of redis and of the coroutines. -/
abbrev Services : Type :=
  Plant.State interface ℕ Net Job Answer

section

variable (tname : TName)

/-- The number the keys of a table are counted from. -/
def start : ℤ :=
  match (dbtable tname).detail.get (dbtable tname).pkey with
  | .num n => n
  | _ => 0

/-- Whether a job asks for a new key: `CMD.insert(tname, nil)`. -/
def counting (j : Job) : Bool :=
  match j.cmd with
  | .insert t key => decide (t = tname) && !key.truthy
  | _ => false

/-- The counter in redis. -/
def counter (db : Redis) : Option String :=
  (db tname).lookup autoincrKey

/-- What the jobs that ask for a new key have returned. -/
def returned (s : Services) : List Value :=
  s.ended.filterMap fun e =>
    match e.2 with
    | .returned a => if counting tname e.1 then some a.val else none
    | .raised _ => none

/-- Nothing has been sent or returned, and the counter, if there is one, is a number not below
the start. -/
def Ready (s : Services) : Prop :=
  (∀ x, counter tname s.network.db = some x → ∃ c, x = c.repr ∧ start tname ≤ c) ∧
    (∀ n, s.waiting n = none) ∧ (∀ n, s.network.sent n = none) ∧
      (∀ n, s.network.replies n = none) ∧ s.ended = []

/-- The counter is written only to set it up, while it is not there or at its start, and counts
only once it is there. -/
def Timely (db : Redis) : Redis.Command → Prop
  | .hmset t f v => t = tname → f = autoincrKey →
      v = (start tname).repr ∧ ∀ x, counter tname db = some x → x = (start tname).repr
  | .hincrby t _ _ => t = tname → ∃ x, counter tname db = some x
  | _ => True

/-- Redis runs the commands on the counter when they are timely. -/
def TimelySteps (s : Services) : Plant.Step Job ℕ → Prop
  | .event n => ∀ q, s.network.sent n = some q → Timely tname s.network.db q
  | _ => True

end

/-! ### What a coroutine does with the counter -/

/-- The connections of a service are kept. -/
def StaysOpen (s s' : State) : Prop :=
  ∀ tname, s.lconntab tname = true → s'.lconntab tname = true

theorem StaysOpen.refl (s : State) :
  StaysOpen s s
  := fun _ h => h

theorem StaysOpen.trans {s s' s'' : State} (h : StaysOpen s s') (h' : StaysOpen s' s'') :
  StaysOpen s s''
  := fun tname ht => h' tname (h tname ht)

/-- The commands that hand out no key of the table and delete nothing. -/
def Plain (tname : TName) : Redis.Command → Prop
  | .hincrby t _ _ => t ≠ tname
  | .hdel _ fields => fields = []
  | _ => True

/-- What a job that asks for a new key makes of the reply to its `HINCRBY`. -/
def keyOfReply : Except String Redis.Reply → Service Answer
  | .ok (.int c) => .ret (.value (.num c))
  | .ok _ => .raise "the table not autoincrement!"
  | .error e => .raise e

/-- From the state `s` of its service, and any state it is resumed in as long as connections
are kept, the coroutine keeps connections; it sends plain commands, and if it is to ask for a new
key it ends with one `HINCRBY` and returns nothing else than the reply. -/
def Behaves (tname : TName) (asks : Bool) : Service Answer → State → Prop
  | .ret _, _ => asks = false
  | .raise _, _ => True
  | .read k, s => Behaves tname asks (k s) s
  | .write s' k, s => StaysOpen s s' ∧ Behaves tname asks k s'
  | .emit _ k, s => Behaves tname asks k s
  | .call q k, s =>
      (asks = true ∧ q = .hincrby tname autoincrKey 1 ∧ ∀ r, k r = keyOfReply r) ∨
      (Plain tname q ∧ ∀ r s', StaysOpen s s' → Behaves tname asks (k r) s')

section Behaves

variable {tname : TName} {asks : Bool}

/-- A plain command, and what follows it. -/
theorem behaves_command {q : Redis.Command} {g : Redis.Reply → Service Answer} {s : State}
    (hq : Plain tname q) (hg : ∀ a s', StaysOpen s s' → Behaves tname asks (g a) s') :
  Behaves tname asks (command q >>= g) s
  := by
  right
  use hq
  intro r s' hs'
  cases r with
  | ok a => exact hg a s' hs'
  | error e => trivial

/-- Setting the counter up asks for no key. -/
theorem behaves_setupCounter {t : TName} {g : Unit → Service Answer} {s : State}
    (hg : ∀ s', StaysOpen s s' → Behaves tname asks (g ()) s') :
  Behaves tname asks (setupCounter t >>= g) s
  := by
  rw [setupCounter, Coroutine.bind_bind]
  apply behaves_command
  · trivial
  · intro keytab s₁ hs₁
    dsimp only
    split
    · rw [Coroutine.bind_bind]
      apply behaves_command
      · trivial
      · intro a s₂ hs₂
        exact hg s₂ (hs₁.trans hs₂)
    · exact hg s₁ hs₁

/-- Connecting leaves the connection open for what follows. -/
theorem behaves_connected {t : TName} {g : Unit → Service Answer}
    (hg : ∀ s, s.lconntab t = true → Behaves tname asks (g ()) s) (s : State) :
  Behaves tname asks (lredishandler t >>= g) s
  := by
  rw [lredishandler, Coroutine.bind_bind]
  change Behaves tname asks ((if s.lconntab t then pure () else _) >>= g) s
  split
  · next hopen => exact hg s hopen
  · rw [Coroutine.bind_bind]
    apply behaves_command
    · trivial
    · rintro - s₁ -
      let s₂ : State := { s₁ with lconntab := Function.update s₁.lconntab t true }
      have hopen : s₂.lconntab t = true := Function.update_self _ _ _
      have hopened : StaysOpen s₁ s₂ := by
        intro t' ht'
        rcases eq_or_ne t' t with rfl | hne
        · exact hopen
        · exact (Function.update_of_ne hne _ _).trans ht'
      rw [Coroutine.bind_bind]
      use hopened
      change Behaves tname asks ((if (dbtable t).auto then setupCounter t else pure ()) >>= g) s₂
      split
      · apply behaves_setupCounter
        intro s' hs'
        exact hg s' (hs' t hopen)
      · exact hg s₂ hopen

end Behaves

/-- What a job of a service runs behaves. -/
theorem Job.behaves (json : Cjson) {tname : TName} (hauto : (dbtable tname).auto = true)
    (j : Job) (s : State) :
  Behaves tname (counting tname j) (CMD.dispatch json j.cmd) s
  := by
  obtain ⟨service, cmd, hclose⟩ := j
  cases cmd with
  | query t key =>
      dsimp only [CMD.dispatch, CMD.query]
      rw [Coroutine.map_bind]
      apply behaves_connected
      rintro s -
      split
      · rw [Coroutine.map_bind]
        apply behaves_command
        · trivial
        · rintro a s' -
          cases (bulks a).head?.join with
          | none => rfl
          | some recstr =>
              dsimp only
              split
              · rfl
              · cases lunpackrecord json t recstr with
                | ok rtab => rfl
                | error e => trivial
      · rw [Coroutine.map_bind]
        apply behaves_command
        · trivial
        · rintro a s' -
          cases unpackAll json t (bulks a) with
          | ok recs => rfl
          | error e => trivial
  | update t rectab =>
      dsimp only [CMD.dispatch, CMD.update]
      split
      · rw [Coroutine.map_bind]
        apply behaves_connected
        rintro s -
        rw [Coroutine.map_bind]
        apply behaves_command
        · trivial
        · exact fun _ _ _ => rfl
      · rfl
  | insert t key =>
      dsimp only [CMD.dispatch, CMD.insert]
      rw [Coroutine.map_bind]
      apply behaves_connected
      intro s hopen
      split
      · next hcount =>
          obtain ⟨hkey, hauto'⟩ : key.truthy = false ∧ (dbtable t).auto = true := by
            simpa using hcount
          rw [lautoincrement, Coroutine.map_bind]
          change Behaves tname _ (Answer.value <$> (if s.lconntab t then _ else _)) s
          rw [if_pos hopen, if_pos hauto', Coroutine.map_bind]
          rcases eq_or_ne t tname with rfl | ht
          · left
            refine ⟨by simp [counting, hkey], rfl, ?_⟩
            rintro (e | a)
            · rfl
            · cases a <;> rfl
          · have hasks : counting tname ⟨service, .insert t key, hclose⟩ = false := by
              simp [counting, ht]
            rw [hasks]
            apply behaves_command
            · exact ht
            · rintro a s' -
              cases a <;> first | rfl | trivial
      · next hcount =>
          have hasks : counting tname ⟨service, .insert t key, hclose⟩ = false := by
            rcases eq_or_ne t tname with rfl | ht
            · simpa [counting, hauto] using hcount
            · simp [counting, ht]
          rw [Coroutine.map_bind, hasks]
          apply behaves_command
          · trivial
          · exact fun _ _ _ => rfl
  | remove t key =>
      dsimp only [CMD.dispatch, CMD.remove]
      split
      · rw [Coroutine.bind_bind]
        apply behaves_connected
        rintro s -
        rw [Coroutine.bind_bind]
        apply behaves_command
        · rfl
        · exact fun _ _ _ => rfl
      · rfl
  | closeAll => exact absurd rfl hclose

/-- A stretch keeps connections, and leaves a coroutine that behaves. -/
theorem Behaves.resume {tname : TName} {asks : Bool} {c : Service Answer} {s : State}
    (h : Behaves tname asks c s) :
  let x := c.resume s
  StaysOpen s x.state ∧
    match x.halt with
    | .returned _ => asks = false
    | .raised _ => True
    | .waiting q k => Behaves tname asks (.call q k) x.state
  := by
  induction c generalizing s with
  | ret a => exact ⟨.refl s, h⟩
  | raise e => exact ⟨.refl s, trivial⟩
  | read k ih => exact ih s h
  | write s' k ih =>
      obtain ⟨hopen, hhalt⟩ := ih h.2
      exact ⟨h.1.trans hopen, hhalt⟩
  | emit o k ih => exact ih h
  | call q k => exact ⟨.refl s, h⟩

/-- A suspended coroutine behaves in any state reached while connections are kept. -/
theorem Behaves.mono {tname : TName} {asks : Bool} {q : Redis.Command}
    {k : Except String Redis.Reply → Service Answer} {s s' : State}
    (h : Behaves tname asks (.call q k) s) (hs : StaysOpen s s') :
  Behaves tname asks (.call q k) s'
  := by
  rcases h with h | ⟨hq, hk⟩
  · exact .inl h
  · exact .inr ⟨hq, fun r s'' hs' => hk r s'' (hs.trans hs')⟩

/-! ### The coroutines and their commands -/

/-- What is sent belongs to a suspended coroutine that behaves, and is answered once. -/
structure Tracked (tname : TName) (s : Services) : Prop where
  waiting : ∀ n t, s.waiting n = some t →
    Behaves tname (counting tname t.job) (.call t.query t.resumed) (s.process t.job.service)
  sent : ∀ n q, s.network.sent n = some q → ∃ t, s.waiting n = some t ∧ t.query = q
  replies : ∀ n r, s.network.replies n = some r →
    s.network.sent n = none ∧ ∃ t, s.waiting n = some t
  fresh : ∀ n t, s.waiting n = some t → n < s.fresh

section Run

variable {json : Cjson} {tname : TName} {s : Services} {n : ℕ} {j : Job} {c : Service Answer}

theorem run_db :
  ((services json).run n j c s).network.db = s.network.db
  := by
  obtain ⟨a, -, h⟩ | ⟨e, -, h⟩ | ⟨q, k, -, h⟩ := (services json).run_cases n j c s
  · rw [h]
  · rw [h]
  · rw [h]
    rfl

theorem run_replies :
  ((services json).run n j c s).network.replies = s.network.replies
  := by
  obtain ⟨a, -, h⟩ | ⟨e, -, h⟩ | ⟨q, k, -, h⟩ := (services json).run_cases n j c s
  · rw [h]
  · rw [h]
  · rw [h]
    rfl

theorem run_sent_of_ne {m : ℕ} (hm : m ≠ n) :
  ((services json).run n j c s).network.sent m = s.network.sent m
  := by
  obtain ⟨a, -, h⟩ | ⟨e, -, h⟩ | ⟨q, k, -, h⟩ := (services json).run_cases n j c s
  · rw [h]
  · rw [h]
  · rw [h]
    exact Function.update_of_ne hm _ _

/-- What the coroutine itself has sent after a stretch is what it waits for. -/
theorem run_sent_self (hidle : s.network.sent n = none) {q : Redis.Command}
    (hq : ((services json).run n j c s).network.sent n = some q) :
  ∃ t, ((services json).run n j c s).waiting n = some t ∧ t.query = q
  := by
  obtain ⟨a, -, h⟩ | ⟨e, -, h⟩ | ⟨q', k, -, h⟩ := (services json).run_cases n j c s
  · rw [h] at hq
    cases hidle.symm.trans hq
  · rw [h] at hq
    cases hidle.symm.trans hq
  · rw [h] at hq ⊢
    have hself : ((services json).issue n q' s.network).sent n = some q' := by
      simp [services]
    exact ⟨_, Function.update_self _ _ _, Option.some.inj (hself.symm.trans hq)⟩

/-- Nothing is on its way for a coroutine that is not suspended. -/
theorem Tracked.idle (h : Tracked tname s) (hidle : s.waiting n = none) :
  s.network.sent n = none ∧ s.network.replies n = none
  := by
  constructor
  · cases hq : s.network.sent n with
    | none => rfl
    | some q =>
        obtain ⟨t, ht, -⟩ := h.sent n q hq
        cases hidle.symm.trans ht
  · cases hr : s.network.replies n with
    | none => rfl
    | some r =>
        obtain ⟨-, t, ht⟩ := h.replies n r hr
        cases hidle.symm.trans ht

/-- A stretch of a coroutine that behaves keeps the commands tracked. -/
theorem Tracked.run (h : Tracked tname s) (hn : n < s.fresh) (hidle : s.waiting n = none)
    (hopen : StaysOpen (s.process j.service) (c.resume (s.process j.service)).state)
    (hhalt : ∀ q k, (c.resume (s.process j.service)).halt = .waiting q k →
      Behaves tname (counting tname j) (.call q k) (c.resume (s.process j.service)).state) :
  Tracked tname ((services json).run n j c s)
  := by
  have hprocess : ∀ i, StaysOpen (s.process i) (Function.update s.process j.service
      (c.resume (s.process j.service)).state i) := by
    intro i
    rcases eq_or_ne i j.service with rfl | hi
    · rw [Function.update_self]
      exact hopen
    · rw [Function.update_of_ne hi]
      exact .refl _
  constructor
  · intro m t ht
    rw [Plant.run_process]
    rcases eq_or_ne m n with rfl | hm
    · obtain ⟨rfl, hquery⟩ := (services json).run_waiting_self m j c s ht
      have hself : Function.update s.process ((services json).home t.job)
          (c.resume (s.process ((services json).home t.job))).state t.job.service
          = (c.resume (s.process t.job.service)).state := Function.update_self _ _ _
      rw [hself]
      exact hhalt _ _ hquery
    · rw [Plant.run_waiting_of_ne _ _ _ _ _ hm] at ht
      exact (h.waiting m t ht).mono (hprocess t.job.service)
  · intro m q hq
    rcases eq_or_ne m n with rfl | hm
    · exact run_sent_self (h.idle hidle).1 hq
    · rw [run_sent_of_ne hm] at hq
      rw [Plant.run_waiting_of_ne _ _ _ _ _ hm]
      exact h.sent m q hq
  · intro m r hr
    rw [run_replies] at hr
    have hm : m ≠ n := by
      rintro rfl
      cases (h.idle hidle).2.symm.trans hr
    rw [run_sent_of_ne hm, Plant.run_waiting_of_ne _ _ _ _ _ hm]
    exact h.replies m r hr
  · intro m t ht
    rw [Plant.run_fresh]
    rcases eq_or_ne m n with rfl | hm
    · exact hn
    · rw [Plant.run_waiting_of_ne _ _ _ _ _ hm] at ht
      exact h.fresh m t ht

end Run

/-- Redis running a command keeps the commands tracked. -/
theorem Tracked.react {json : Cjson} {tname : TName} {s : Services} (h : Tracked tname s)
    {n : ℕ} {w : Net} (hw : (services json).react n s.network = some w) :
  Tracked tname { s with network := w }
  := by
  obtain ⟨q, hq, rfl⟩ := Option.map_eq_some_iff.mp hw
  constructor
  · exact h.waiting
  · intro m q' hq'
    rcases eq_or_ne m n with rfl | hm
    · simp at hq'
    · exact h.sent m q' ((Function.update_of_ne hm _ _).symm.trans hq')
  · intro m r hr
    rcases eq_or_ne m n with rfl | hm
    · obtain ⟨t, ht, -⟩ := h.sent m q hq
      exact ⟨Function.update_self _ _ _, t, ht⟩
    · obtain ⟨hsent, ht⟩ := h.replies m r ((Function.update_of_ne hm _ _).symm.trans hr)
      exact ⟨(Function.update_of_ne hm _ _).trans hsent, ht⟩
  · exact h.fresh

/-- Taking the reply of a coroutine and the coroutine itself away keeps the commands tracked. -/
theorem Tracked.collect {json : Cjson} {tname : TName} {s : Services} (h : Tracked tname s)
    {n : ℕ} {r : Except String Redis.Reply} {w : Net}
    (hw : (services json).collect n s.network = some (r, w)) :
  Tracked tname { s with
    network := w
    waiting := Function.update s.waiting n none }
  := by
  obtain ⟨r', hr', heq⟩ := Option.map_eq_some_iff.mp hw
  cases heq
  obtain ⟨hsent, -⟩ := h.replies n r hr'
  have hold : ∀ {m t}, Function.update s.waiting n none m = some t →
      s.waiting m = some t := by
    intro m t ht
    rcases eq_or_ne m n with rfl | hm
    · simp at ht
    · exact (Function.update_of_ne hm _ _).symm.trans ht
  constructor
  · exact fun m t ht => h.waiting m t (hold ht)
  · intro m q hq
    have hm : m ≠ n := by
      rintro rfl
      cases hsent.symm.trans hq
    obtain ⟨t, ht, hquery⟩ := h.sent m q hq
    exact ⟨t, (Function.update_of_ne hm _ _).trans ht, hquery⟩
  · intro m r' hr
    rcases eq_or_ne m n with rfl | hm
    · simp at hr
    · obtain ⟨hsent', t, ht⟩ := h.replies m r' ((Function.update_of_ne hm _ _).symm.trans hr)
      exact ⟨hsent', t, (Function.update_of_ne hm _ _).trans ht⟩
  · exact fun m t ht => h.fresh m t (hold ht)

/-! ### The keys -/

/-- A key on its way to the coroutine `n`. -/
def Flying (tname : TName) (s : Services) (n : ℕ) (v : ℤ) : Prop :=
  ∃ t, s.waiting n = some t ∧ t.query = .hincrby tname autoincrKey 1 ∧
    s.network.replies n = some (.ok (.int v))

/-- The keys handed out are different from each other, above the start and not above the
counter. -/
structure Fresh (tname : TName) (s : Services) : Prop where
  counter : ∀ x, counter tname s.network.db = some x → ∃ c, x = c.repr ∧ start tname ≤ c
  numbers : ∀ a ∈ returned tname s, ∃ v, a = .num v
  handed : ∀ v, .num v ∈ returned tname s ∨ (∃ n, Flying tname s n v) →
    start tname < v ∧ ∃ c, Counter.counter tname s.network.db = some c.repr ∧ v ≤ c
  nodup : (returned tname s).Nodup
  apart : ∀ n v, Flying tname s n v → .num v ∉ returned tname s
  distinct : ∀ n m v, Flying tname s n v → Flying tname s m v → n = m

section Keys

variable {json : Cjson} {tname : TName} {s s' : Services} {n : ℕ}

/-- Handing nothing out keeps the keys fresh. -/
theorem Fresh.mono (h : Fresh tname s)
    (hcounter : Counter.counter tname s'.network.db = Counter.counter tname s.network.db)
    (hreturned : returned tname s' = returned tname s)
    (hflying : ∀ m v, Flying tname s' m v → Flying tname s m v) :
  Fresh tname s'
  := by
  constructor
  · rw [hcounter]
    exact h.counter
  · rw [hreturned]
    exact h.numbers
  · intro v hv
    rw [hcounter]
    apply h.handed
    rcases hv with hv | ⟨m, hm⟩
    · rw [hreturned] at hv
      exact .inl hv
    · exact .inr ⟨m, hflying m v hm⟩
  · rw [hreturned]
    exact h.nodup
  · intro m v hm
    rw [hreturned]
    exact h.apart m v (hflying m v hm)
  · exact fun m m' v hm hm' => h.distinct m m' v (hflying m v hm) (hflying m' v hm')

/-- A key that arrives is no longer on its way. -/
theorem Fresh.arrive (h : Fresh tname s) {v : ℤ} (hv : Flying tname s n v)
    (hcounter : Counter.counter tname s'.network.db = Counter.counter tname s.network.db)
    (hreturned : returned tname s' = .num v :: returned tname s)
    (hflying : ∀ m u, Flying tname s' m u → m ≠ n ∧ Flying tname s m u) :
  Fresh tname s'
  := by
  constructor
  · rw [hcounter]
    exact h.counter
  · intro a ha
    rw [hreturned] at ha
    rcases List.mem_cons.mp ha with rfl | ha
    · exact ⟨v, rfl⟩
    · exact h.numbers a ha
  · intro u hu
    rw [hcounter]
    apply h.handed
    rcases hu with hu | ⟨m, hm⟩
    · rw [hreturned] at hu
      rcases List.mem_cons.mp hu with heq | hu
      · cases heq
        exact .inr ⟨n, hv⟩
      · exact .inl hu
    · exact .inr ⟨m, (hflying m u hm).2⟩
  · rw [hreturned]
    exact List.nodup_cons.mpr ⟨h.apart n v hv, h.nodup⟩
  · intro m u hm hu
    obtain ⟨hne, hm⟩ := hflying m u hm
    rw [hreturned] at hu
    rcases List.mem_cons.mp hu with heq | hu
    · cases heq
      exact hne (h.distinct m n v hm hv)
    · exact h.apart m u hm hu
  · exact fun m m' u hm hm' =>
      h.distinct m m' u (hflying m u hm).2 (hflying m' u hm').2

/-- The number after the counter is a new key. -/
theorem Fresh.handOut (h : Fresh tname s) {c : ℤ}
    (hcounter : Counter.counter tname s.network.db = some c.repr)
    (hcounter' : Counter.counter tname s'.network.db = some (c + 1).repr)
    (hreturned : returned tname s' = returned tname s)
    (hflying : ∀ m v, Flying tname s' m v → m = n ∧ v = c + 1 ∨ Flying tname s m v) :
  Fresh tname s'
  := by
  have hstart : start tname ≤ c := by
    obtain ⟨c', hc', hle⟩ := h.counter _ hcounter
    rw [Redis.repr_injective hc']
    exact hle
  have hbound : ∀ v, (.num v ∈ returned tname s ∨ ∃ n, Flying tname s n v) →
      start tname < v ∧ v ≤ c := by
    intro v hv
    obtain ⟨hlt, c', hc', hle⟩ := h.handed v hv
    rw [hcounter] at hc'
    rw [Redis.repr_injective (Option.some.inj hc')]
    exact ⟨hlt, hle⟩
  constructor
  · intro x hx
    rw [hcounter'] at hx
    exact ⟨c + 1, (Option.some.inj hx).symm, by omega⟩
  · rw [hreturned]
    exact h.numbers
  · intro v hv
    have hcases : v = c + 1 ∨ .num v ∈ returned tname s ∨ ∃ n, Flying tname s n v := by
      rcases hv with hv | ⟨m, hm⟩
      · rw [hreturned] at hv
        exact .inr (.inl hv)
      · rcases hflying m v hm with ⟨-, hv⟩ | hm
        · exact .inl hv
        · exact .inr (.inr ⟨m, hm⟩)
    rcases hcases with rfl | hv
    · exact ⟨by omega, c + 1, hcounter', Int.le_refl _⟩
    · obtain ⟨hlt, hle⟩ := hbound v hv
      exact ⟨hlt, c + 1, hcounter', by omega⟩
  · rw [hreturned]
    exact h.nodup
  · intro m v hm hv
    rw [hreturned] at hv
    rcases hflying m v hm with ⟨-, rfl⟩ | hm
    · obtain ⟨-, hle⟩ := hbound _ (.inl hv)
      omega
    · exact h.apart m v hm hv
  · intro m m' v hm hm'
    rcases hflying m v hm with ⟨hmn, hv⟩ | hm <;>
      rcases hflying m' v hm' with ⟨hmn', hv'⟩ | hm'
    · rw [hmn, hmn']
    · obtain ⟨-, hle⟩ := hbound v (.inr ⟨m', hm'⟩)
      omega
    · obtain ⟨-, hle⟩ := hbound v (.inr ⟨m, hm⟩)
      omega
    · exact h.distinct m m' v hm hm'

/-- Setting the counter up hands nothing out. -/
theorem Fresh.setUp (h : Fresh tname s)
    (hstart : ∀ x, Counter.counter tname s.network.db = some x → x = (start tname).repr)
    (hcounter : Counter.counter tname s'.network.db = some (start tname).repr)
    (hreturned : returned tname s' = returned tname s)
    (hflying : ∀ m v, Flying tname s' m v → Flying tname s m v) :
  Fresh tname s'
  := by
  -- a key that had been handed out would not be above the counter at its start
  have hnone : ∀ v, ¬ (.num v ∈ returned tname s ∨ ∃ n, Flying tname s n v) := by
    intro v hv
    obtain ⟨hlt, c, hc, hle⟩ := h.handed v hv
    have heq := Redis.repr_injective (hstart _ hc)
    omega
  constructor
  · intro x hx
    rw [hcounter] at hx
    exact ⟨start tname, (Option.some.inj hx).symm, Int.le_refl _⟩
  · rw [hreturned]
    exact h.numbers
  · rintro v (hv | ⟨m, hm⟩)
    · rw [hreturned] at hv
      exact absurd (.inl hv) (hnone v)
    · exact absurd (.inr ⟨m, hflying m v hm⟩) (hnone v)
  · rw [hreturned]
    exact h.nodup
  · exact fun m v hm => absurd (.inr ⟨m, hflying m v hm⟩) (hnone v)
  · exact fun m m' v hm => absurd (.inr ⟨m, hflying m v hm⟩) (hnone v)

/-- A coroutine has no key on its way to it right after a stretch. -/
theorem flying_run {j : Job} {c : Service Answer} (hidle : s.network.replies n = none) {m : ℕ}
    {v : ℤ} (h : Flying tname ((services json).run n j c s) m v) :
  m ≠ n ∧ Flying tname s m v
  := by
  obtain ⟨t, ht, hquery, hr⟩ := h
  rw [run_replies] at hr
  have hm : m ≠ n := by
    rintro rfl
    cases hidle.symm.trans hr
  rw [Plant.run_waiting_of_ne _ _ _ _ _ hm] at ht
  exact ⟨hm, t, ht, hquery, hr⟩

/-- A stretch returns a key only if the job asks for one. -/
theorem returned_run {j : Job} {c : Service Answer} :
  returned tname ((services json).run n j c s) =
    match (c.resume (s.process j.service)).halt with
    | .returned a => if counting tname j then a.val :: returned tname s else returned tname s
    | _ => returned tname s
  := by
  obtain ⟨a, hhalt, h⟩ | ⟨e, hhalt, h⟩ | ⟨q, k, hhalt, h⟩ := (services json).run_cases n j c s
  · have hhalt' : (c.resume (s.process j.service)).halt = .returned a := hhalt
    rw [h, hhalt', returned, List.filterMap_cons]
    cases counting tname j <;> rfl
  · have hhalt' : (c.resume (s.process j.service)).halt = .raised e := hhalt
    rw [h, hhalt']
    rfl
  · have hhalt' : (c.resume (s.process j.service)).halt = .waiting q k := hhalt
    rw [h, hhalt']
    rfl

/-- A stretch of a coroutine that behaves hands no key out. -/
theorem Fresh.run {j : Job} {c : Service Answer} (h : Fresh tname s)
    (hidle : s.network.replies n = none)
    (hc : Behaves tname (counting tname j) c (s.process j.service)) :
  Fresh tname ((services json).run n j c s)
  := by
  apply h.mono
  · rw [Counter.counter, Counter.counter, run_db]
  · obtain ⟨-, hhalt⟩ := hc.resume
    rw [returned_run]
    split at hhalt
    · next a ha =>
        rw [ha]
        dsimp only
        rw [hhalt]
        rfl
    · next e he => rw [he]
    · next q k hq => rw [hq]
  · exact fun m v hm => (flying_run hidle hm).2

/-- Taking a coroutine away takes its key away. -/
theorem flying_collect {w : Net} {r : Except String Redis.Reply}
    (hw : (services json).collect n s.network = some (r, w)) {m : ℕ} {v : ℤ}
    (h : Flying tname { s with
      network := w
      waiting := Function.update s.waiting n none } m v) :
  m ≠ n ∧ Flying tname s m v
  := by
  obtain ⟨r', hr', heq⟩ := Option.map_eq_some_iff.mp hw
  cases heq
  obtain ⟨t, ht, hquery, hr⟩ := h
  have hm : m ≠ n := by
    rintro rfl
    simp at ht
  exact ⟨hm, t, (Function.update_of_ne hm _ _).symm.trans ht, hquery,
    (Function.update_of_ne hm _ _).symm.trans hr⟩

/-- The reply to an `HINCRBY` is returned as a key, once. -/
theorem Fresh.deliver (h : Fresh tname s) {t : Waiting interface Job Answer}
    (ht : s.waiting n = some t) (hquery : t.query = .hincrby tname autoincrKey 1)
    (hasks : counting tname t.job = true) {r : Except String Redis.Reply} {w : Net}
    (hw : (services json).collect n s.network = some (r, w)) :
  Fresh tname ((services json).run n t.job (keyOfReply r) { s with
    network := w
    waiting := Function.update s.waiting n none })
  := by
  let s₀ : Services := { s with
    network := w
    waiting := Function.update s.waiting n none }
  have hflying : ∀ m v, Flying tname ((services json).run n t.job (keyOfReply r) s₀) m v →
      m ≠ n ∧ Flying tname s m v := by
    intro m v hm
    obtain ⟨r', -, heq⟩ := Option.map_eq_some_iff.mp hw
    cases heq
    exact flying_collect hw (flying_run (Function.update_self _ _ _) hm).2
  have hcounter : Counter.counter tname ((services json).run n t.job (keyOfReply r) s₀).network.db
      = Counter.counter tname s.network.db := by
    obtain ⟨r', -, heq⟩ := Option.map_eq_some_iff.mp hw
    cases heq
    rw [Counter.counter, Counter.counter, run_db]
  have hreturned : returned tname ((services json).run n t.job (keyOfReply r) s₀) = _ :=
    returned_run
  obtain ⟨v, hr⟩ | hr : (∃ v, r = .ok (.int v)) ∨ ∃ e, keyOfReply r = .raise e := by
    rcases r with e | a
    · exact .inr ⟨e, rfl⟩
    · cases a with
      | int v => exact .inl ⟨v, rfl⟩
      | status => exact .inr ⟨_, rfl⟩
      | bulks l => exact .inr ⟨_, rfl⟩
  · have hflew : Flying tname s n v := by
      obtain ⟨r', hr', heq⟩ := Option.map_eq_some_iff.mp hw
      cases heq
      rw [hr] at hr'
      exact ⟨t, ht, hquery, hr'⟩
    have hcons : returned tname ((services json).run n t.job (keyOfReply r) s₀)
        = .num v :: returned tname s := by
      rw [hreturned, hr]
      exact if_pos hasks
    exact h.arrive hflew hcounter hcons hflying
  · obtain ⟨e, he⟩ := hr
    apply h.mono hcounter
    · rw [hreturned, he]
      rfl
    · exact fun m v hm => (hflying m v hm).2

/-- A plain command that is timely leaves the counter, or sets it up. -/
theorem exec_plain {q : Redis.Command} {db : Redis} (hplain : Plain tname q)
    (htimely : Timely tname db q) :
  counter tname (Redis.exec q db).2 = counter tname db ∨
    (∀ x, counter tname db = some x → x = (start tname).repr) ∧
      counter tname (Redis.exec q db).2 = some (start tname).repr
  := by
  cases q with
  | connect => exact .inl rfl
  | hmget t fields =>
      left
      cases fields <;> rfl
  | hmset t f v =>
      rcases eq_or_ne t tname with rfl | ht
      · rcases eq_or_ne f autoincrKey with rfl | hf
        · obtain ⟨rfl, hstart⟩ := htimely rfl rfl
          right
          use hstart
          simp [counter, Redis.exec]
        · left
          simp [counter, Redis.exec, AList.lookup_insert_ne hf.symm]
      · left
        simp [counter, Redis.exec, Function.update_of_ne ht.symm]
  | hincrby t f i =>
      left
      dsimp only [Redis.exec, Redis.hincrby]
      split
      · rfl
      · split
        · exact congrArg (AList.lookup autoincrKey)
            (Function.update_of_ne (Ne.symm hplain) _ _)
        · rfl
  | hgetall t => exact .inl rfl
  | hdel t fields =>
      left
      obtain rfl : fields = [] := hplain
      rfl

/-- A timely command keeps the keys fresh. -/
theorem Fresh.react (h : Fresh tname s) (htracked : Tracked tname s) {w : Net}
    (hw : (services json).react n s.network = some w)
    (htimely : ∀ q, s.network.sent n = some q → Timely tname s.network.db q) :
  Fresh tname { s with network := w }
  := by
  obtain ⟨q, hq, rfl⟩ := Option.map_eq_some_iff.mp hw
  have htimely := htimely q hq
  obtain ⟨t, ht, rfl⟩ := htracked.sent n q hq
  have hflying : ∀ m v, Flying tname { s with network :=
      { db := (Redis.exec t.query s.network.db).2
        sent := Function.update s.network.sent n none
        replies := Function.update s.network.replies n
          (some (Redis.exec t.query s.network.db).1) } } m v →
      m = n ∧ t.query = .hincrby tname autoincrKey 1 ∧
        (Redis.exec t.query s.network.db).1 = .ok (.int v) ∨ Flying tname s m v := by
    rintro m v ⟨t', ht', hquery, hr⟩
    rcases eq_or_ne m n with rfl | hm
    · obtain rfl := Option.some.inj (ht.symm.trans ht')
      left
      dsimp only at hr
      rw [Function.update_self] at hr
      exact ⟨rfl, hquery, Option.some.inj hr⟩
    · right
      exact ⟨t', ht', hquery, (Function.update_of_ne hm _ _).symm.trans hr⟩
  rcases htracked.waiting n t ht with ⟨-, hquery, -⟩ | ⟨hplain, -⟩
  · obtain ⟨x, hx⟩ : ∃ x, Counter.counter tname s.network.db = some x := by
      rw [hquery] at htimely
      exact htimely rfl
    obtain ⟨c, rfl, -⟩ := h.counter x hx
    have hlookup : (s.network.db tname).lookup autoincrKey = some c.repr := hx
    have hexec : Redis.exec t.query s.network.db =
        if Redis.inRange (c + 1) then
          (.ok (.int (c + 1)), Function.update s.network.db tname
            ((s.network.db tname).insert autoincrKey (c + 1).repr))
        else (.error "ERR increment or decrement would overflow", s.network.db) := by
      rw [hquery, Redis.exec, Redis.hincrby, hlookup, Option.getD_some, Redis.tonumber_repr]
    cases hrange : Redis.inRange (c + 1) with
    | true =>
        rw [hrange, if_pos rfl] at hexec
        apply h.handOut (n := n) hx
        · rw [hexec, Counter.counter]
          simp
        · rfl
        · intro m v hm
          rcases hflying m v hm with ⟨rfl, -, hr⟩ | hm
          · rw [hexec] at hr
            cases hr
            exact .inl ⟨rfl, rfl⟩
          · exact .inr hm
    | false =>
        rw [hrange, if_neg Bool.false_ne_true] at hexec
        apply h.mono
        · rw [hexec]
        · rfl
        · intro m v hm
          rcases hflying m v hm with ⟨-, -, hr⟩ | hm
          · rw [hexec] at hr
            cases hr
          · exact hm
  · have hnone : ∀ m v, Flying tname _ m v → Flying tname s m v := fun m v hm => by
      rcases hflying m v hm with ⟨-, hquery, -⟩ | hm
      · rw [hquery] at hplain
        exact absurd rfl hplain
      · exact hm
    rcases exec_plain hplain htimely with hcounter | ⟨hstart, hcounter⟩
    · exact h.mono hcounter rfl hnone
    · exact h.setUp hstart hcounter rfl hnone

end Keys

/-! ### Runs -/

/-- A job asks for a key, if at all, with its last command. -/
theorem keyOfReply_resume (r : Except String Redis.Reply) (s : State) :
  ((keyOfReply r).resume s).state = s ∧ ∀ q k, ((keyOfReply r).resume s).halt ≠ .waiting q k
  := by
  rcases r with e | a
  · exact ⟨rfl, fun _ _ => nofun⟩
  · cases a <;> exact ⟨rfl, fun _ _ => nofun⟩

section Step

variable {json : Cjson} {tname : TName} {s : Services}

/-- Starting a job. -/
theorem Tracked.start (hauto : (dbtable tname).auto = true) (h : Tracked tname s)
    (hfresh : Fresh tname s) (j : Job) :
  let s' := (services json).run s.fresh j ((services json).code j) { s with fresh := s.fresh + 1 }
  Tracked tname s' ∧ Fresh tname s'
  := by
  intro s'
  have hidle : s.waiting s.fresh = none := by
    cases ht : s.waiting s.fresh with
    | none => rfl
    | some t => exact absurd (h.fresh _ t ht) (lt_irrefl _)
  have htracked : Tracked tname { s with fresh := s.fresh + 1 } :=
    ⟨h.waiting, h.sent, h.replies, fun n t ht => Nat.lt_succ_of_lt (h.fresh n t ht)⟩
  have hkeys : Fresh tname { s with fresh := s.fresh + 1 } :=
    hfresh.mono rfl rfl fun _ _ hm => hm
  have hbehaves := Job.behaves json hauto j (s.process j.service)
  obtain ⟨hopen, hhalt⟩ := hbehaves.resume
  constructor
  · apply htracked.run (Nat.lt_succ_self _) hidle hopen
    intro q k hq
    have hq' : ((CMD.dispatch json j.cmd).resume (s.process j.service)).halt = .waiting q k := hq
    rw [hq'] at hhalt
    exact hhalt
  · exact hkeys.run (h.idle hidle).2 hbehaves

/-- Resuming a coroutine. -/
theorem Tracked.wake (h : Tracked tname s) (hfresh : Fresh tname s) {n : ℕ}
    {t : Waiting interface Job Answer} (ht : s.waiting n = some t)
    {r : Except String Redis.Reply} {w : Net}
    (hw : (services json).collect n s.network = some (r, w)) :
  let s' := (services json).run n t.job (t.resumed r) { s with network := w }
  Tracked tname s' ∧ Fresh tname s'
  := by
  intro s'
  have hclear : s' = (services json).run n t.job (t.resumed r) { s with
      network := w
      waiting := Function.update s.waiting n none } := ((services json).run_clear ..).symm
  have htracked := h.collect hw
  have hidle : Function.update s.waiting n none n = none := Function.update_self _ _ _
  rw [hclear]
  rcases h.waiting n t ht with ⟨hasks, hquery, hresumed⟩ | ⟨-, hresumed⟩
  · rw [hresumed]
    obtain ⟨hstate, hhalt⟩ := keyOfReply_resume r (s.process t.job.service)
    constructor
    · apply htracked.run (h.fresh n t ht) hidle
      · have hstate' : ((keyOfReply r).resume (s.process t.job.service)).state
            = s.process t.job.service := hstate
        rw [hstate']
        exact .refl _
      · exact fun q k hq => absurd hq (hhalt q k)
    · exact hfresh.deliver ht hquery hasks hw
  · have hbehaves := hresumed r _ (.refl _)
    obtain ⟨hopen, hhalt⟩ := hbehaves.resume
    have hkeys : Fresh tname { s with
        network := w
        waiting := Function.update s.waiting n none } := by
      apply hfresh.mono
      · obtain ⟨r', -, heq⟩ := Option.map_eq_some_iff.mp hw
        cases heq
        rfl
      · rfl
      · exact fun m v hm => (flying_collect hw hm).2
    constructor
    · apply htracked.run (h.fresh n t ht) hidle hopen
      intro q k hq
      have hq' : ((t.resumed r).resume (s.process t.job.service)).halt = .waiting q k := hq
      rw [hq'] at hhalt
      exact hhalt
    · exact hkeys.run (htracked.idle hidle).2 hbehaves

end Step

/-- In every state reached while redis runs the commands on the counter when they are timely,
the keys that `CMD.insert(tname, nil)` has returned are different from each other and above the
start. -/
theorem keys_unique (json : Cjson) {tname : TName} (hauto : (dbtable tname).auto = true)
    {s : Services}
    (h : ((services json).machine (Ready tname)).Reaches (TimelySteps tname) s) :
  (returned tname s).Nodup ∧ ∀ a ∈ returned tname s, ∃ v, a = .num v ∧ start tname < v
  := by
  have hinv : Tracked tname s ∧ Fresh tname s := by
    apply Machine.invariant (P := fun s => Tracked tname s ∧ Fresh tname s) _ _ h
    · rintro s ⟨hcounter, hwaiting, hsent, hreplies, hended⟩
      have hreturned : returned tname s = [] := by rw [returned, hended, List.filterMap_nil]
      have hflying : ∀ n v, ¬ Flying tname s n v := by
        rintro n v ⟨t, ht, -⟩
        cases (hwaiting n).symm.trans ht
      constructor
      · constructor
        · exact fun n t ht => nomatch (hwaiting n).symm.trans ht
        · exact fun n q hq => nomatch (hsent n).symm.trans hq
        · exact fun n r hr => nomatch (hreplies n).symm.trans hr
        · exact fun n t ht => nomatch (hwaiting n).symm.trans ht
      · constructor
        · exact hcounter
        · simp [hreturned]
        · rintro v (hv | ⟨n, hn⟩)
          · simp [hreturned] at hv
          · exact absurd hn (hflying n v)
        · simp [hreturned]
        · exact fun n v hn => absurd hn (hflying n v)
        · exact fun n m v hn => absurd hn (hflying n v)
    · rintro s a s' ⟨htracked, hfresh⟩ hok hstep
      obtain ⟨j, rfl, rfl⟩ | ⟨n, w, rfl, hw, rfl⟩ | ⟨n, t, r, w, rfl, ht, hw, rfl⟩ :=
        (services json).step_cases hstep
      · exact htracked.start hauto hfresh j
      · exact ⟨htracked.react hw, hfresh.react htracked hw hok⟩
      · exact htracked.wake hfresh ht hw
  obtain ⟨-, hfresh⟩ := hinv
  use hfresh.nodup
  intro a ha
  obtain ⟨v, rfl⟩ := hfresh.numbers a ha
  exact ⟨v, rfl, (hfresh.handed v (.inl ha)).1⟩

/-! ### Keys at start-up -/

/-- When redis runs the `HINCRBY` of a job that asks for a key, and the job then is resumed, it
returns one more than the counter, which is counted up; other jobs wait as before. -/
theorem returned_hincrby (json : Cjson) {tname : TName} {s : Services} {n : ℕ}
    {t : Waiting interface Job Answer} (ht : s.waiting n = some t)
    (hsent : s.network.sent n = some (.hincrby tname autoincrKey 1))
    (hresumed : ∀ r, t.resumed r = keyOfReply r) (hasks : counting tname t.job = true) {c : ℤ}
    (hc : (counter tname s.network.db).getD "0" = c.repr) (hrange : Redis.inRange (c + 1) = true) :
  ∃ s', ((services json).machine (Ready tname)).exec s [.event n, .wake n] = some s' ∧
    returned tname s' = .num (c + 1) :: returned tname s ∧
    counter tname s'.network.db = some (c + 1).repr ∧
    ∀ m ≠ n, s'.waiting m = s.waiting m ∧ s'.network.sent m = s.network.sent m
  := by
  have hexec : Redis.exec (.hincrby tname autoincrKey 1) s.network.db = (.ok (.int (c + 1)),
      Function.update s.network.db tname
        ((s.network.db tname).insert autoincrKey (c + 1).repr)) := by
    have hc' : ((s.network.db tname).lookup autoincrKey).getD "0" = c.repr := hc
    rw [Redis.exec, Redis.hincrby, hc', Redis.tonumber_repr]
    dsimp only
    rw [hrange, if_pos rfl]
  let w : Net :=
    { db := Function.update s.network.db tname ((s.network.db tname).insert autoincrKey (c + 1).repr)
      sent := Function.update s.network.sent n none
      replies := Function.update s.network.replies n (some (.ok (.int (c + 1)))) }
  let w' : Net := { w with replies := Function.update w.replies n none }
  let s' : Services :=
    (services json).run n t.job (keyOfReply (.ok (.int (c + 1)))) { s with network := w' }
  have hreact : ((services json).machine (Ready tname)).step s (.event n)
      = some { s with network := w } := by
    simp only [Plant.machine, Plant.step, services, hsent, Option.map_some, hexec]
    rfl
  have hcollect : ((services json).machine (Ready tname)).step { s with network := w } (.wake n)
      = some s' := by
    have hr : w.replies n = some (.ok (.int (c + 1))) := Function.update_self _ _ _
    have hs' : s' = (services json).run n t.job (t.resumed (.ok (.int (c + 1))))
        { s with network := w' } := by rw [hresumed]
    rw [hs']
    simp only [Plant.machine, Plant.step, services, ht, hr, Option.bind_some, Option.map_some]
    rfl
  have hended : s'.waiting = Function.update s.waiting n none ∧ s'.network = w' :=
    (services json).run_ended n t.job (keyOfReply (.ok (.int (c + 1)))) { s with network := w' }
      fun q k => nofun
  refine ⟨s', ?_, ?_, ?_, ?_⟩
  · rw [Machine.exec_cons hreact, Machine.exec_cons hcollect]
    rfl
  · rw [returned_run]
    exact if_pos hasks
  · rw [hended.2]
    dsimp only [w', w, counter]
    rw [Function.update_self, AList.lookup_insert]
  · intro m hm
    rw [hended.1, hended.2]
    exact ⟨Function.update_of_ne hm _ _, Function.update_of_ne hm _ _⟩

/-- A service encodes records somehow; the jobs below store none. -/
def someJson : Cjson where
  encode _ := ""
  decode _ := .error "Expected value but found T_END"

/-- A service is asked for a new user. -/
def newUser (service : ℕ) : Job where
  service := service
  cmd := .insert .user .nil
  ne_closeAll := nofun

/-- The services have not connected, and there is no counter. -/
def disconnected : Services where
  process _ := ⟨fun _ => false⟩
  network :=
    { db := fun _ => ∅
      sent := fun _ => none
      replies := fun _ => none }
  waiting _ := none
  fresh := 0
  outputs := []
  ended := []

/-- The first keys of a service, which redis gives in another order than they have been asked for. -/
theorem keys_unique_two :
  ∃ s, ((services someJson).machine (Ready .user)).exec disconnected
      [.start (newUser 0), .event 0, .wake 0, .event 0, .wake 0, .event 0, .wake 0,
        .start (newUser 0), .event 1, .wake 1, .event 0, .wake 0] = some s ∧
    returned .user s = [.num 1002, .num 1001] ∧
    (returned .user s).Nodup ∧ ∀ a ∈ returned .user s, ∃ v, a = .num v ∧ start .user < v
  := by
  let M := (services someJson).machine (Ready .user)
  let before : List (Plant.Step Job ℕ) :=
    [.start (newUser 0), .event 0, .wake 0, .event 0, .wake 0, .event 0, .wake 0, .start (newUser 0)]
  have hinit : Ready .user disconnected :=
    ⟨nofun, fun _ => rfl, fun _ => rfl, fun _ => rfl, rfl⟩
  have hset : ∃ s t t', M.exec disconnected before = some s ∧ M.Reaches (TimelySteps .user) s ∧
      s.waiting 0 = some t ∧ s.network.sent 0 = some (.hincrby .user autoincrKey 1) ∧
      (∀ r, t.resumed r = keyOfReply r) ∧ counting .user t.job = true ∧
      s.waiting 1 = some t' ∧ s.network.sent 1 = some (.hincrby .user autoincrKey 1) ∧
      (∀ r, t'.resumed r = keyOfReply r) ∧ counting .user t'.job = true ∧
      counter .user s.network.db = some (1000 : ℤ).repr ∧ returned .user s = [] := by
    refine ⟨_, _, _, rfl, ?_, rfl, rfl, ?_, rfl, rfl, rfl, ?_, rfl, rfl, rfl⟩
    · apply Machine.Reaches.exec before (.init hinit) _ rfl
      apply Machine.Guarded.cons rfl trivial
      apply Machine.Guarded.cons rfl (fun q hq => by cases hq; trivial)
      apply Machine.Guarded.cons rfl trivial
      apply Machine.Guarded.cons rfl (fun q hq => by cases hq; trivial)
      apply Machine.Guarded.cons rfl trivial
      apply Machine.Guarded.cons rfl (fun q hq => by cases hq; exact fun _ _ => ⟨rfl, nofun⟩)
      apply Machine.Guarded.cons rfl trivial
      apply Machine.Guarded.cons rfl trivial
      trivial
    · rintro (e | a)
      · rfl
      · cases a <;> rfl
    · rintro (e | a)
      · rfl
      · cases a <;> rfl
  obtain ⟨s, t, t', hbefore, hreach, ht, hsent, hresumed, hasks, ht', hsent', hresumed', hasks', hc, hnone⟩ := hset
  have hc₁ : (counter .user s.network.db).getD "0" = (1000 : ℤ).repr := by rw [hc]; rfl
  obtain ⟨s₁, hexec₁, hreturned₁, hcounter₁, hother⟩ := returned_hincrby someJson ht' hsent' hresumed' hasks' hc₁ rfl
  obtain ⟨hwaiting, hsent₁⟩ := hother 0 Nat.zero_ne_one
  have hc₂ : (counter .user s₁.network.db).getD "0" = (1001 : ℤ).repr := by rw [hcounter₁]; rfl
  obtain ⟨s₂, hexec₂, hreturned₂, -⟩ :=
    returned_hincrby someJson (hwaiting.trans ht) (hsent₁.trans hsent) hresumed hasks hc₂ rfl
  rw [hreturned₁, hnone] at hreturned₂
  have hreach₁ : M.Reaches (TimelySteps .user) s₁ := by
    refine Machine.Reaches.exec _ hreach ?_ hexec₁
    rintro s' -
    refine ⟨fun q hq => ?_, fun _ _ => ⟨trivial, trivial⟩⟩
    obtain rfl := Option.some.inj (hsent'.symm.trans hq)
    exact fun _ => ⟨_, hc⟩
  have hreach₂ : M.Reaches (TimelySteps .user) s₂ := by
    refine Machine.Reaches.exec _ hreach₁ ?_ hexec₂
    rintro s' -
    refine ⟨fun q hq => ?_, fun _ _ => ⟨trivial, trivial⟩⟩
    obtain rfl := Option.some.inj ((hsent₁.trans hsent).symm.trans hq)
    exact fun _ => ⟨_, hcounter₁⟩
  refine ⟨s₂, ?_, hreturned₂, keys_unique someJson rfl hreach₂⟩
  exact (Machine.exec_append hbefore _).trans ((Machine.exec_append hexec₁ _).trans hexec₂)

/-- A second request to a service that is about to set the counter up gets the key 1. -/
theorem key_before_counter :
  Ready .user disconnected ∧
  ∃ s, ((services someJson).machine (Ready .user)).exec disconnected
      [.start (newUser 0), .event 0, .wake 0, .start (newUser 0), .event 1, .wake 1] = some s ∧
    returned .user s = [.num 1] ∧ ¬ ∀ a ∈ returned .user s, ∃ v, a = .num v ∧ start .user < v
  := by
  let M := (services someJson).machine (Ready .user)
  have hset : ∃ s t, M.exec disconnected
      [.start (newUser 0), .event 0, .wake 0, .start (newUser 0)] = some s ∧
      s.waiting 1 = some t ∧ s.network.sent 1 = some (.hincrby .user autoincrKey 1) ∧
      (∀ r, t.resumed r = keyOfReply r) ∧ counting .user t.job = true ∧
      (counter .user s.network.db).getD "0" = (0 : ℤ).repr ∧ returned .user s = [] := by
    refine ⟨_, _, rfl, rfl, rfl, ?_, rfl, rfl, rfl⟩
    rintro (e | a)
    · rfl
    · cases a <;> rfl
  obtain ⟨s, t, hbefore, ht, hsent, hresumed, hasks, hc, hnone⟩ := hset
  obtain ⟨s', hexec, hreturned, -⟩ := returned_hincrby someJson ht hsent hresumed hasks hc rfl
  rw [hnone] at hreturned
  use ⟨nofun, fun _ => rfl, fun _ => rfl, fun _ => rfl, rfl⟩, s'
  use (Machine.exec_append hbefore _).trans hexec, hreturned
  intro hstart
  obtain ⟨v, hv, hlt⟩ := hstart (.num 1) (hreturned ▸ List.mem_singleton.mpr rfl)
  cases hv
  exact absurd hlt (by decide)

end DbRedis.Counter
