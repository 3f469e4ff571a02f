import FWServer.Skynet.Datacenter
import Mathlib.Data.List.Infix
import Mathlib.Data.List.Nodup

/-!
# Requests that wait at the data center

Of a `WAIT` that has not been answered the path has no value (`no_waiter_forgotten`), as long as no `UPDATE` of
a path gives a value to a longer one that is waited for, by a table or by the library of strings, or makes
tables only as far as the two agree; and as long as no `WAIT` finds a `false`.  `wakeup` looks at what waits
above the path and at the path, and never below.
-/

namespace Skynet

namespace Datacenter

variable {ν : Type} {db db' v ret : Value ν} {u w p q r : List (Key ν)} {k x y : Key ν}

/-! ### Writing and reading -/

theorem query_cons (db : Value ν) (k : Key ν) (w : List (Key ν)) :
  query db (k :: w) = (index db k).bind fun d => query d w
  := rfl

@[simp]
theorem index_table (t : Key ν → Value ν) (k : Key ν) :
  index (.table t) k = some (t k)
  := rfl

theorem query_append (db : Value ν) (w q : List (Key ν)) :
  query db (w ++ q) = (query db w).bind fun d => query d q
  := by
  induction w generalizing db with
  | nil => rfl
  | cons k w ih =>
      rw [List.cons_append, query_cons, query_cons, Option.bind_assoc]
      congr 1
      funext d
      exact ih d

/-- Nothing is read of `nil`. -/
theorem query_nil_of_ne (hw : w ≠ []) :
  query (.nil : Value ν) w = none
  := by
  obtain ⟨k, w, rfl⟩ := List.exists_cons_of_ne_nil hw
  rfl

theorem child_of_ne {d : Value ν} (hd : d ≠ .nil) :
  child d = d
  := by
  cases d with
  | nil => contradiction
  | _ => rfl

theorem QUERY_table (t : Key ν → Value ν) (k : Key ν) (w : List (Key ν)) :
  QUERY (.table t) (k :: w) = if (t k).truthy then query (t k) w else some .nil
  := rfl

theorem truthy_table (t : Key ν → Value ν) :
  (Value.table t).truthy = true
  := rfl

/-- Nothing is read of a value that counts as false. -/
theorem query_falsy {d : Value ν} (hd : ¬d.truthy = true) (hquery : query d w = some v) :
  v = d
  := by
  cases w with
  | nil => exact (Option.some.inj hquery).symm
  | cons k w =>
      cases d with
      | nil => contradiction
      | bool b => contradiction
      | _ => exact absurd rfl hd

variable [DecidableEq ν]

theorem setIndex_spec (h : setIndex k v db = some db') :
  ∃ t, db = .table t ∧ db' = .table (Function.update t k v)
  := by
  cases db with
  | table t => exact ⟨t, rfl, (Option.some.inj h).symm⟩
  | _ => contradiction

/-- What `update` does to a table: the value at the first key is the new one, or it is a table that has been
updated, or made. -/
theorem update_cons (h : update db v (k :: w) = some (ret, db')) :
  ∃ t c, db = .table t ∧ db' = .table (Function.update t k c) ∧
    (w = [] ∧ c = v ∧ ret = t k ∨ w ≠ [] ∧ update (child (t k)) v w = some (ret, c))
  := by
  cases w with
  | nil =>
      obtain ⟨d, hd, h⟩ := Option.bind_eq_some_iff.mp h
      obtain ⟨db'', hset, heq⟩ := Option.map_eq_some_iff.mp h
      obtain ⟨hret, hdb⟩ := Prod.mk.inj heq
      obtain ⟨t, rfl, hnew⟩ := setIndex_spec hset
      refine ⟨t, v, rfl, hdb.symm.trans hnew, .inl ⟨rfl, rfl, ?_⟩⟩
      exact hret.symm.trans (Option.some.inj hd).symm
  | cons k' w =>
      obtain ⟨d, hd, h⟩ := Option.bind_eq_some_iff.mp h
      obtain ⟨⟨ret', c⟩, hupdate, h⟩ := Option.bind_eq_some_iff.mp h
      obtain ⟨db'', hset, heq⟩ := Option.map_eq_some_iff.mp h
      obtain ⟨hret, hdb⟩ := Prod.mk.inj heq
      obtain ⟨t, rfl, hnew⟩ := setIndex_spec hset
      obtain rfl := Option.some.inj hd
      have hret : ret' = ret := hret
      rw [hret] at hupdate
      exact ⟨t, c, rfl, hdb.symm.trans hnew, .inr ⟨List.cons_ne_nil _ _, hupdate⟩⟩

theorem update_nil (h : update db v [] = some (ret, db')) :
  False
  := by cases h

/-- A table comes of it. -/
theorem table_of_update (h : update db v u = some (ret, db')) :
  (∃ t, db = .table t) ∧ ∃ t, db' = .table t
  := by
  cases u with
  | nil => exact (update_nil h).elim
  | cons k u =>
      obtain ⟨t, c, rfl, rfl, -⟩ := update_cons h
      exact ⟨⟨_, rfl⟩, _, rfl⟩

/-- What has been written is read. -/
theorem query_update (h : update db v u = some (ret, db')) (q : List (Key ν)) :
  query db' (u ++ q) = query v q
  := by
  induction u generalizing db db' with
  | nil => exact (update_nil h).elim
  | cons k u ih =>
      obtain ⟨t, c, -, rfl, hc⟩ := update_cons h
      rw [List.cons_append, query_cons, index_table, Function.update_self, Option.bind_some]
      rcases hc with ⟨rfl, rfl, -⟩ | ⟨-, hupdate⟩
      · rfl
      · exact ih hupdate

/-- Elsewhere, what there is not stays so. -/
theorem query_update_of_ne (h : update db v (p ++ y :: r) = some (ret, db')) (hne : x ≠ y)
    (hnil : query db (p ++ x :: q) = some .nil) :
  query db' (p ++ x :: q) = some .nil
  := by
  induction p generalizing db db' with
  | nil =>
      obtain ⟨t, c, rfl, rfl, -⟩ := update_cons h
      rw [List.nil_append, query_cons, index_table] at hnil ⊢
      rwa [Function.update_of_ne hne]
  | cons k p ih =>
      obtain ⟨t, c, rfl, rfl, hc⟩ := update_cons h
      rw [List.cons_append, query_cons, index_table, Option.bind_some] at hnil ⊢
      rw [Function.update_self]
      have hsome : t k ≠ .nil := by
        intro heq
        rw [heq, query_nil_of_ne (List.append_ne_nil_of_right_ne_nil p (List.cons_ne_nil x q))] at hnil
        contradiction
      rcases hc with ⟨hend, -⟩ | ⟨-, hupdate⟩
      · exact absurd hend (List.append_ne_nil_of_right_ne_nil p (List.cons_ne_nil y r))
      · rw [child_of_ne hsome] at hupdate
        exact ih hupdate hnil

/-- In tables that have been made, there is nothing beside the path. -/
theorem query_made (h : update .empty v (p ++ y :: r) = some (ret, db')) (hne : x ≠ y) :
  query db' (p ++ [x]) = some .nil
  := by
  induction p generalizing db' with
  | nil =>
      obtain ⟨t, c, heq, rfl, -⟩ := update_cons h
      obtain rfl := Value.table.inj heq
      rw [List.nil_append, query_cons, index_table, Function.update_of_ne hne]
      rfl
  | cons k p ih =>
      obtain ⟨t, c, heq, rfl, hc⟩ := update_cons h
      obtain rfl := Value.table.inj heq
      rw [List.cons_append, query_cons, index_table, Function.update_self, Option.bind_some]
      rcases hc with ⟨hend, -⟩ | ⟨-, hupdate⟩
      · exact absurd hend (List.append_ne_nil_of_right_ne_nil p (List.cons_ne_nil y r))
      · exact ih hupdate

/-- In tables that have been made, there was nothing before. -/
theorem ret_of_made (h : update .empty v u = some (ret, db')) :
  ret = .nil
  := by
  induction u generalizing db' with
  | nil => exact (update_nil h).elim
  | cons k u ih =>
      obtain ⟨t, c, heq, rfl, hc⟩ := update_cons h
      obtain rfl := Value.table.inj heq
      rcases hc with ⟨-, -, rfl⟩ | ⟨-, hupdate⟩
      · rfl
      · exact ih hupdate

/-- What was there before is returned. -/
theorem query_of_update (h : update db v u = some (ret, db')) (hret : ret ≠ .nil) :
  query db u = some ret
  := by
  induction u generalizing db db' with
  | nil => exact (update_nil h).elim
  | cons k u ih =>
      obtain ⟨t, c, rfl, rfl, hc⟩ := update_cons h
      rw [query_cons, index_table, Option.bind_some]
      rcases hc with ⟨rfl, -, rfl⟩ | ⟨hmore, hupdate⟩
      · rfl
      · rcases eq_or_ne (t k) .nil with hnone | hsome
        · rw [hnone] at hupdate
          exact absurd (ret_of_made hupdate) hret
        · rw [child_of_ne hsome] at hupdate
          exact ih hupdate

/-! ### `QUERY` after `UPDATE` -/

/-- What has been written is read, if it counts as true. -/
theorem QUERY_update (h : update db v u = some (ret, db')) (hv : v.truthy = true) (q : List (Key ν)) :
  QUERY db' (u ++ q) = query v q
  := by
  cases u with
  | nil => exact (update_nil h).elim
  | cons k u =>
      obtain ⟨t, c, rfl, rfl, hc⟩ := update_cons h
      rw [List.cons_append, QUERY_table, Function.update_self]
      rcases hc with ⟨rfl, rfl, -⟩ | ⟨-, hupdate⟩
      · rw [if_pos hv]
        rfl
      · have hquery := query_update hupdate q
        obtain ⟨-, t', rfl⟩ := table_of_update hupdate
        rw [if_pos (truthy_table _), hquery]

/-- Elsewhere, what there is not stays so, unless tables are made on the way. -/
theorem QUERY_update_of_ne (h : update db v (p ++ y :: r) = some (ret, db')) (hne : x ≠ y)
    (hnil : QUERY db (p ++ x :: q) = some .nil)
    (hmade : ∀ k p', p = k :: p' → q ≠ [] → index db k ≠ some .nil) :
  QUERY db' (p ++ x :: q) = some .nil
  := by
  cases p with
  | nil =>
      obtain ⟨t, c, rfl, rfl, -⟩ := update_cons h
      rw [List.nil_append, QUERY_table] at hnil ⊢
      rwa [Function.update_of_ne hne]
  | cons k p =>
      obtain ⟨t, c, rfl, rfl, hc⟩ := update_cons h
      rw [List.cons_append, QUERY_table] at hnil ⊢
      rw [Function.update_self]
      rcases hc with ⟨hend, -⟩ | ⟨-, hupdate⟩
      · exact absurd hend (List.append_ne_nil_of_right_ne_nil p (List.cons_ne_nil y r))
      · have htable := table_of_update hupdate
        have hquery : query c (p ++ x :: q) = some .nil := by
          rcases eq_or_ne (t k) .nil with hnone | hsome
          · rcases eq_or_ne q [] with rfl | hq
            · rw [hnone] at hupdate
              exact query_made hupdate hne
            · exact absurd (congrArg some hnone) (hmade k p rfl hq)
          · rw [child_of_ne hsome] at hupdate htable
            obtain ⟨⟨t', ht'⟩, -⟩ := htable
            rw [ht', if_pos (truthy_table _)] at hnil
            rw [ht'] at hupdate
            exact query_update_of_ne hupdate hne hnil
        obtain ⟨-, t', rfl⟩ := htable
        rw [if_pos (truthy_table _), hquery]

/-- Above a value there are values. -/
theorem QUERY_of_prefix (h : update db v u = some (ret, db')) (hret : ret.truthy = true) (hw : w <+: u) :
  QUERY db w ≠ some .nil ∨ w = []
  := by
  obtain ⟨q, rfl⟩ := hw
  cases w with
  | nil => exact .inr rfl
  | cons k w =>
      left
      have hsome : ret ≠ .nil := by
        rintro rfl
        contradiction
      have hquery := query_of_update h hsome
      obtain ⟨t, c, rfl, -, -⟩ := update_cons h
      rw [List.cons_append, query_cons, index_table, Option.bind_some] at hquery
      rw [QUERY_table]
      split_ifs with htruthy
      · rw [query_append] at hquery
        obtain ⟨d, hd, hq⟩ := Option.bind_eq_some_iff.mp hquery
        rw [hd]
        intro heq
        rw [Option.some.inj heq] at hq
        cases q with
        | nil => exact hsome (Option.some.inj hq).symm
        | cons k' q => contradiction
      · rw [query_falsy htruthy hquery] at hret
        exact absurd hret htruthy

/-! ### Requests that wait -/

/-- The requests that wait at a path. -/
def queueAt (t : Key ν → Waiters ν) : List (Key ν) → List ℕ
  | [] => []
  | [k] =>
      match t k with
      | .queue q => q
      | _ => []
  | k :: w =>
      match t k with
      | .branch t => queueAt t w
      | _ => []

/-- What waits at a key, and below it. -/
def Waiters.queueAt : Waiters ν → List (Key ν) → List ℕ
  | .queue q, [] => q
  | .branch t, w => Datacenter.queueAt t w
  | _, _ => []

omit [DecidableEq ν] in
theorem queueAt_cons (t : Key ν → Waiters ν) (k : Key ν) (w : List (Key ν)) :
  queueAt t (k :: w) = (t k).queueAt w
  := by
  cases w with
  | nil =>
      rw [queueAt]
      cases t k <;> rfl
  | cons k' w =>
      rw [queueAt]
      · cases t k <;> rfl
      · exact List.cons_ne_nil _ _

variable {t t' : Key ν → Waiters ν} {n : ℕ}

theorem queueAt_update_self (t : Key ν → Waiters ν) (k : Key ν) (a : Waiters ν) (w : List (Key ν)) :
  queueAt (Function.update t k a) (k :: w) = a.queueAt w
  := by rw [queueAt_cons, Function.update_self]

theorem queueAt_update_of_ne (hne : x ≠ k) (a : Waiters ν) (w : List (Key ν)) :
  queueAt (Function.update t k a) (x :: w) = queueAt t (x :: w)
  := by rw [queueAt_cons, Function.update_of_ne hne, queueAt_cons]

/-- A request waits at its path, after the others. -/
theorem queueAt_waitfor (h : waitfor n t u = some t') (w : List (Key ν)) :
  queueAt t' w = if w = u then queueAt t u ++ [n] else queueAt t w
  := by
  induction u generalizing t t' w with
  | nil => contradiction
  | cons k u ih =>
      -- what is at the key then
      obtain ⟨a, rfl, ha⟩ : ∃ a, t' = Function.update t k a ∧
          ∀ w, a.queueAt w = if w = u then (t k).queueAt u ++ [n] else (t k).queueAt w := by
        cases u with
        | nil =>
            rw [waitfor] at h
            cases hk : t k with
            | none =>
                rw [hk] at h
                refine ⟨_, (Option.some.inj h).symm, fun w => ?_⟩
                cases w <;> rfl
            | queue q =>
                rw [hk] at h
                refine ⟨_, (Option.some.inj h).symm, fun w => ?_⟩
                cases w <;> rfl
            | branch t₀ =>
                rw [hk] at h
                contradiction
        | cons k' u =>
            rw [waitfor] at h
            · cases hk : t k with
              | none =>
                  rw [hk] at h
                  obtain ⟨t₁, ht₁, rfl⟩ := Option.map_eq_some_iff.mp h
                  refine ⟨_, rfl, fun w => ?_⟩
                  have hempty (w : List (Key ν)) : queueAt (fun _ => (.none : Waiters ν)) w = [] := by
                    cases w with
                    | nil => rfl
                    | cons x w => rw [queueAt_cons, Waiters.queueAt] <;> exact nofun
                  have hwait := ih ht₁ w
                  rw [hempty, hempty] at hwait
                  exact hwait
              | queue q =>
                  rw [hk] at h
                  contradiction
              | branch t₀ =>
                  rw [hk] at h
                  obtain ⟨t₁, ht₁, rfl⟩ := Option.map_eq_some_iff.mp h
                  exact ⟨_, rfl, fun w => ih ht₁ w⟩
            · exact List.cons_ne_nil _ _
      cases w with
      | nil => rw [if_neg (List.cons_ne_nil k u).symm, queueAt, queueAt]
      | cons x w =>
          rcases eq_or_ne x k with rfl | hne
          · rw [queueAt_update_self, ha, queueAt_cons, queueAt_cons]
            exact if_congr (by rw [List.cons.injEq, eq_self, true_and]) rfl rfl
          · rw [queueAt_update_of_ne hne, if_neg fun heq => hne (List.cons.inj heq).1]

variable {keys : List (Option (Key ν))}

omit [DecidableEq ν] in
/-- The keys of a path are the first of some keys. -/
theorem map_some_prefix_cons {key : Option (Key ν)} (hw : (x :: w).map some <+: key :: keys) :
  key = some x ∧ w.map some <+: keys
  := by
  obtain ⟨hkey, hrest⟩ := List.cons_prefix_cons.mp hw
  exact ⟨hkey.symm, hrest⟩

/-- Nothing is left to wait along the keys. -/
theorem queueAt_wakeup_of_agree (hw : w.map some <+: keys) :
  queueAt (wakeup t keys).2 w = []
  := by
  induction keys generalizing t w with
  | nil =>
      cases w with
      | nil => rfl
      | cons x w => exact absurd (List.prefix_nil.mp hw) (List.cons_ne_nil _ _)
  | cons key keys ih =>
      cases w with
      | nil => rfl
      | cons x w =>
          obtain ⟨rfl, hrest⟩ := map_some_prefix_cons hw
          rw [wakeup]
          cases hx : t x with
          | none =>
              dsimp only
              rw [queueAt_cons, hx]
              cases w <;> rfl
          | queue q =>
              dsimp only
              rw [queueAt_update_self]
              cases w <;> rfl
          | branch t₀ =>
              dsimp only
              rw [queueAt_update_self]
              exact ih hrest

/-- What waits elsewhere goes on waiting. -/
theorem queueAt_wakeup_of_not (hw : ¬w.map some <+: keys) :
  queueAt (wakeup t keys).2 w = queueAt t w
  := by
  induction keys generalizing t w with
  | nil => rfl
  | cons key keys ih =>
      cases w with
      | nil => exact absurd (List.nil_prefix) hw
      | cons x w =>
          cases key with
          | none => rfl
          | some k =>
              rcases eq_or_ne x k with rfl | hne
              · have hrest : ¬w.map some <+: keys :=
                  fun hrest => hw (List.cons_prefix_cons.mpr ⟨rfl, hrest⟩)
                rw [wakeup]
                cases hx : t x with
                | none => rfl
                | queue q =>
                    dsimp only
                    rw [queueAt_update_self, queueAt_cons, hx]
                    cases w with
                    | nil => exact absurd List.nil_prefix hrest
                    | cons x' w => rfl
                | branch t₀ =>
                    dsimp only
                    rw [queueAt_update_self, queueAt_cons, hx]
                    exact ih hrest
              · rw [wakeup]
                cases t k with
                | none => rfl
                | queue q => exact queueAt_update_of_ne hne _ _
                | branch t₀ => exact queueAt_update_of_ne hne _ _

/-- What waits along the keys is found. -/
theorem mem_found (hw : w.map some <+: keys) (hn : n ∈ queueAt t w) :
  n ∈ (wakeup t keys).1.q
  := by
  induction keys generalizing t w with
  | nil =>
      cases w with
      | nil => contradiction
      | cons x w => exact absurd (List.prefix_nil.mp hw) (List.cons_ne_nil _ _)
  | cons key keys ih =>
      cases w with
      | nil => contradiction
      | cons x w =>
          obtain ⟨rfl, hrest⟩ := map_some_prefix_cons hw
          rw [queueAt_cons] at hn
          rw [wakeup]
          cases hx : t x with
          | none =>
              rw [hx] at hn
              cases w <;> contradiction
          | queue q =>
              rw [hx] at hn
              cases w with
              | nil => exact hn
              | cons x' w => contradiction
          | branch t₀ =>
              rw [hx] at hn
              exact ih hrest hn

/-- What is found has waited at one path along the keys. -/
theorem found_spec (t : Key ν → Waiters ν) (keys : List (Option (Key ν))) :
  ∃ w, w.map some <+: keys ∧ (wakeup t keys).1.q = queueAt t w
  := by
  induction keys generalizing t with
  | nil => exact ⟨[], List.nil_prefix, rfl⟩
  | cons key keys ih =>
      cases key with
      | none => exact ⟨[], List.nil_prefix, rfl⟩
      | some k =>
          rw [wakeup]
          cases hk : t k with
          | none => exact ⟨[], List.nil_prefix, rfl⟩
          | queue q =>
              refine ⟨[k], List.cons_prefix_cons.mpr ⟨rfl, List.nil_prefix⟩, ?_⟩
              rw [queueAt_cons, hk]
              rfl
          | branch t₀ =>
              obtain ⟨w, hw, hfound⟩ := ih t₀
              refine ⟨k :: w, List.cons_prefix_cons.mpr ⟨rfl, hw⟩, ?_⟩
              rw [queueAt_cons, hk]
              exact hfound

/-! ### Runs -/

/-- What may be written: anything but `nil` and `false`. -/
def Written : Value ν → Prop
  | .str _ | .num _ | .bool true | .table _ => True
  | _ => False

/-- A value is written at a path. -/
def Admitted : Request ν → Prop
  | .UPDATE path value => path ≠ [] ∧ Written value
  | _ => True

/-- A `WAIT` that finds a `false` raises.  An `UPDATE` that does not raise gives no value to a path below its own
that is waited for, unless the last key is the value itself, where `wakeup` looks; and where a path that is
waited for parts from its own, tables that are made do not end before the last key of the former. -/
def Seen (st : State ν) : Request ν → Prop
  | .UPDATE path value =>
      update st.database value path ≠ none → ∀ w, queueAt st.wait_queue w ≠ [] →
        (∀ q, w = path ++ q → q ≠ [] → query value q = some .nil ∨
          (value.key.toList = q ∧ ¬((query st.database path).getD .nil).truthy = true)) ∧
        (∀ k p x q y r, w = k :: p ++ x :: q → path = k :: p ++ y :: r → x ≠ y → q ≠ [] →
          index st.database k ≠ some .nil)
  | .WAIT path =>
      QUERY st.database path = some (.bool false) → waitfor st.next st.wait_queue path = none
  | .QUERY _ => True

/-- Of each `WAIT` that has not been answered the path has no value, and none has been answered twice. -/
structure Remembered (st : State ν) : Prop where
  waiting : ∀ n < st.next, n ∉ st.answers.map Prod.fst → QUERY st.database (st.path n) = some .nil
  once : (st.answers.map Prod.fst).Nodup

/-- The requests that wait are those that have not been answered. -/
structure Sound (st : State ν) : Prop where
  queued : ∀ w, ∀ n ∈ queueAt st.wait_queue w, n < st.next ∧ st.path n = w ∧
    n ∉ st.answers.map Prod.fst
  nodup : ∀ w, (queueAt st.wait_queue w).Nodup
  asked : ∀ n < st.next, n ∉ st.answers.map Prod.fst → n ∈ queueAt st.wait_queue (st.path n)
  answered : ∀ n ∈ st.answers.map Prod.fst, n < st.next
  once : (st.answers.map Prod.fst).Nodup

/-- And nothing is there where they wait. -/
structure Good (st : State ν) : Prop extends Sound st where
  waiting : ∀ w, queueAt st.wait_queue w ≠ [] → QUERY st.database w = some .nil

variable {st st' : State ν}

omit [DecidableEq ν] in
theorem map_fst_answers (answers : List (ℕ × Answer ν)) (q : List ℕ) (a : Answer ν) :
  (answers ++ q.map fun n => (n, a)).map Prod.fst = answers.map Prod.fst ++ q
  := by
  rw [List.map_append, List.map_map]
  congr 1
  exact List.map_id q

omit [DecidableEq ν] in
/-- A new request. -/
theorem path_update_of_lt (hn : n < st.next) (path : List (Key ν)) :
  Function.update st.path st.next path n = st.path n
  := Function.update_of_ne (Nat.ne_of_lt hn) _ _

omit [DecidableEq ν] in
/-- A `WAIT` is answered at once. -/
theorem Sound.answer (hs : Sound st) (path : List (Key ν)) (a : Answer ν) :
  Sound { st with
    next := st.next + 1
    path := Function.update st.path st.next path
    answers := st.answers ++ [(st.next, a)] }
  := by
  have hmap : (st.answers ++ [(st.next, a)]).map Prod.fst = st.answers.map Prod.fst ++ [st.next] :=
    map_fst_answers st.answers [st.next] a
  constructor
  · intro w n hn
    obtain ⟨hlt, hpath, hnot⟩ := hs.queued w n hn
    refine ⟨Nat.lt_succ_of_lt hlt, (path_update_of_lt hlt path).trans hpath, ?_⟩
    rw [hmap, List.mem_append, List.mem_singleton]
    rintro (hmem | heq)
    · exact hnot hmem
    · exact Nat.ne_of_lt hlt heq
  · exact hs.nodup
  · intro n hn hnot
    rw [hmap, List.mem_append, List.mem_singleton, not_or] at hnot
    have hlt : n < st.next := Nat.lt_of_le_of_ne (Nat.le_of_lt_succ hn) hnot.2
    dsimp only
    rw [path_update_of_lt hlt]
    exact hs.asked n hlt hnot.1
  · intro n hn
    rw [hmap, List.mem_append, List.mem_singleton] at hn
    rcases hn with hn | rfl
    · exact Nat.lt_succ_of_lt (hs.answered n hn)
    · exact Nat.lt_succ_self _
  · rw [hmap, ← List.concat_eq_append]
    exact hs.once.concat fun hmem => Nat.lt_irrefl _ (hs.answered _ hmem)

/-- A `WAIT` waits. -/
theorem Sound.wait (hs : Sound st) {path : List (Key ν)} (h : waitfor st.next st.wait_queue path = some t) :
  Sound { st with next := st.next + 1, path := Function.update st.path st.next path, wait_queue := t }
  := by
  have hnew (w : List (Key ν)) : st.next ∉ queueAt st.wait_queue w :=
    fun hmem => Nat.lt_irrefl _ (hs.queued w _ hmem).1
  have hold {n : ℕ} {w : List (Key ν)} (hn : n ∈ queueAt st.wait_queue w) : n < st.next + 1 ∧
      Function.update st.path st.next path n = w ∧ n ∉ st.answers.map Prod.fst := by
    obtain ⟨hlt, hpath, hnot⟩ := hs.queued w n hn
    exact ⟨Nat.lt_succ_of_lt hlt, (path_update_of_lt hlt path).trans hpath, hnot⟩
  constructor
  · intro w n hn
    dsimp only at hn
    rw [queueAt_waitfor h] at hn
    split_ifs at hn with hw
    · rcases List.mem_append.mp hn with hn | hn
      · rw [hw]
        exact hold hn
      · obtain rfl := List.mem_singleton.mp hn
        refine ⟨Nat.lt_succ_self _, (Function.update_self _ _ _).trans hw.symm, ?_⟩
        exact fun hmem => Nat.lt_irrefl _ (hs.answered _ hmem)
    · exact hold hn
  · intro w
    dsimp only
    rw [queueAt_waitfor h]
    split_ifs
    · rw [← List.concat_eq_append]
      exact (hs.nodup path).concat (hnew path)
    · exact hs.nodup w
  · intro n hn hnot
    dsimp only
    rw [queueAt_waitfor h]
    rcases Nat.lt_or_ge n st.next with hlt | hge
    · have hmem := hs.asked n hlt hnot
      rw [path_update_of_lt hlt]
      split_ifs with hw
      · rw [hw] at hmem
        exact List.mem_append_left _ hmem
      · exact hmem
    · obtain rfl : n = st.next := Nat.le_antisymm (Nat.le_of_lt_succ hn) hge
      rw [Function.update_self, if_pos rfl]
      exact List.mem_append_right _ (List.mem_singleton_self _)
  · exact fun n hn => Nat.lt_succ_of_lt (hs.answered n hn)
  · exact hs.once

/-- The requests that `wakeup` finds are answered. -/
theorem Sound.wake (hs : Sound st) (keys : List (Option (Key ν))) (db : Value ν) (a : Answer ν) :
  Sound { st with
    database := db
    wait_queue := (wakeup st.wait_queue keys).2
    answers := st.answers ++ (wakeup st.wait_queue keys).1.q.map fun n => (n, a) }
  := by
  obtain ⟨p, hp, hfound⟩ := found_spec st.wait_queue keys
  have hold {n : ℕ} {w : List (Key ν)} (hn : n ∈ queueAt (wakeup st.wait_queue keys).2 w) :
      n ∈ queueAt st.wait_queue w ∧ ¬w.map some <+: keys := by
    rcases Decidable.em (w.map some <+: keys) with hw | hw
    · rw [queueAt_wakeup_of_agree hw] at hn
      contradiction
    · rw [queueAt_wakeup_of_not hw] at hn
      exact ⟨hn, hw⟩
  constructor
  · intro w n hn
    obtain ⟨hn, hw⟩ := hold hn
    obtain ⟨hlt, hpath, hnot⟩ := hs.queued w n hn
    refine ⟨hlt, hpath, ?_⟩
    rw [map_fst_answers, List.mem_append]
    rintro (hmem | hmem)
    · exact hnot hmem
    · rw [hfound] at hmem
      obtain ⟨-, hpath', -⟩ := hs.queued p n hmem
      rw [hpath.symm.trans hpath'] at hw
      exact hw hp
  · intro w
    rcases Decidable.em (w.map some <+: keys) with hw | hw
    · dsimp only
      rw [queueAt_wakeup_of_agree hw]
      exact List.nodup_nil
    · dsimp only
      rw [queueAt_wakeup_of_not hw]
      exact hs.nodup w
  · intro n hn hnot
    rw [map_fst_answers, List.mem_append, not_or] at hnot
    have hmem := hs.asked n hn hnot.1
    dsimp only
    rwa [queueAt_wakeup_of_not fun hw => hnot.2 (mem_found hw hmem)]
  · intro n hn
    rw [map_fst_answers, List.mem_append] at hn
    rcases hn with hn | hn
    · exact hs.answered n hn
    · rw [hfound] at hn
      exact (hs.queued p n hn).1
  · rw [map_fst_answers, List.nodup_append]
    refine ⟨hs.once, ?_, ?_⟩
    · rw [hfound]
      exact hs.nodup p
    · rintro n hn m hm rfl
      rw [hfound] at hm
      exact (hs.queued p n hm).2.2 hn

omit [DecidableEq ν] in
/-- A path is at or above another, or below it, or they part. -/
theorem path_cases (w u : List (Key ν)) :
  w <+: u ∨ (∃ q, q ≠ [] ∧ w = u ++ q) ∨
    ∃ p x q y r, w = p ++ x :: q ∧ u = p ++ y :: r ∧ x ≠ y
  := by
  induction w generalizing u with
  | nil => exact .inl List.nil_prefix
  | cons x w ih =>
      cases u with
      | nil => exact .inr (.inl ⟨x :: w, List.cons_ne_nil _ _, rfl⟩)
      | cons y u =>
          rcases eq_or_ne x y with rfl | hne
          · obtain hw | ⟨q, hq, rfl⟩ | ⟨p, x', q, y', r, rfl, rfl, hne⟩ := ih u
            · exact .inl (List.cons_prefix_cons.mpr ⟨rfl, hw⟩)
            · exact .inr (.inl ⟨q, hq, rfl⟩)
            · exact .inr (.inr ⟨x :: p, x', q, y', r, rfl, rfl, hne⟩)
          · exact .inr (.inr ⟨[], x, w, y, u, rfl, rfl, hne⟩)

omit [DecidableEq ν] in
theorem Written.truthy (hv : Written v) :
  v.truthy = true
  := by
  cases v with
  | nil => exact hv.elim
  | bool b =>
      cases b with
      | false => exact hv.elim
      | true => rfl
  | _ => rfl

/-- After an `UPDATE` nothing is where a request waited that is not at or above the path, nor where `wakeup`
looks. -/
theorem Good.update (hgood : Good st) (hadmitted : Admitted (.UPDATE u v)) (hseen : Seen st (.UPDATE u v))
    (h : Datacenter.update st.database v u = some (ret, db)) (hwaits : queueAt st.wait_queue w ≠ [])
    (hw : w <+: u → ret.truthy = true) (hkey : ret.truthy = true ∨ w ≠ u ++ v.key.toList ∨ v.key = none) :
  QUERY db w = some .nil
  := by
  obtain ⟨-, hv⟩ := hadmitted
  have hnil := hgood.waiting w hwaits
  obtain ⟨hbelow, hparts⟩ := hseen (by rw [h]; exact nofun) w hwaits
  obtain hpre | ⟨q, hq, rfl⟩ | ⟨p, x, q, y, r, rfl, rfl, hne⟩ := path_cases w u
  · rcases QUERY_of_prefix h (hw hpre) hpre with hsome | rfl
    · contradiction
    · exact absurd rfl hwaits
  · rw [QUERY_update h hv.truthy]
    rcases hbelow q rfl hq with hvalue | ⟨rfl, hold⟩
    · exact hvalue
    · exfalso
      rcases hkey with hret | hne | hnone
      · have hsome : ret ≠ .nil := by
          rintro rfl
          contradiction
        rw [query_of_update h hsome, Option.getD_some] at hold
        exact hold hret
      · exact hne rfl
      · rw [hnone] at hq
        exact hq rfl
  · apply QUERY_update_of_ne h hne hnil
    rintro k p' rfl hq
    exact hparts k p' x q y r rfl rfl hne hq

omit [DecidableEq ν] in
theorem Sound.of_database (hs : Sound st) (db : Value ν) :
  Sound { st with database := db }
  := ⟨hs.queued, hs.nodup, hs.asked, hs.answered, hs.once⟩

/-! ### Steps -/

theorem UPDATE_of_raise (h : Datacenter.update st.database v u = none) :
  UPDATE st u v = st
  := by rw [UPDATE, h]

theorem UPDATE_of_truthy (h : Datacenter.update st.database v u = some (ret, db)) (hret : ret.truthy = true) :
  UPDATE st u v = { st with database := db }
  := by
  rw [UPDATE, h]
  exact if_pos hret

theorem UPDATE_of_falsy (h : Datacenter.update st.database v u = some (ret, db)) (hret : ¬ret.truthy = true)
    (hv : Written v) :
  ∃ a, UPDATE st u v = { st with
    database := db
    wait_queue := (wakeup st.wait_queue (u.map some ++ [v.key])).2
    answers := st.answers ++ (wakeup st.wait_queue (u.map some ++ [v.key])).1.q.map fun n => (n, a) }
  := by
  rw [UPDATE, h]
  dsimp only
  rw [if_neg hret]
  cases v with
  | nil => exact hv.elim
  | _ => exact ⟨_, rfl⟩

/-- An `UPDATE` leaves nothing where a request waits. -/
theorem Good.UPDATE (hgood : Good st) (hadmitted : Admitted (.UPDATE u v)) (hseen : Seen st (.UPDATE u v)) :
  Good (Datacenter.UPDATE st u v)
  := by
  have hs := hgood.toSound
  cases h : Datacenter.update st.database v u with
  | none =>
      rw [UPDATE_of_raise h]
      exact hgood
  | some r =>
      obtain ⟨ret, db⟩ := r
      by_cases hret : ret.truthy = true
      · rw [UPDATE_of_truthy h hret]
        constructor
        · exact hs.of_database db
        · intro w hwaits
          exact hgood.update hadmitted hseen h hwaits (fun _ => hret) (.inl hret)
      · obtain ⟨a, heq⟩ := UPDATE_of_falsy h hret hadmitted.2
        rw [heq]
        constructor
        · exact hs.wake _ db a
        · intro w hwaits
          have hnot : ¬w.map some <+: u.map some ++ [v.key] :=
            fun hw => hwaits (queueAt_wakeup_of_agree hw)
          dsimp only at hwaits
          rw [queueAt_wakeup_of_not hnot] at hwaits
          apply hgood.update hadmitted hseen h hwaits
          · intro hw
            exact absurd ((hw.map some).trans (List.prefix_append _ _)) hnot
          · right
            cases hkey : v.key with
            | none => exact .inr rfl
            | some k =>
                left
                rintro rfl
                apply hnot
                rw [hkey, List.map_append]
                exact List.prefix_rfl

/-- A `WAIT` waits where nothing is. -/
theorem Good.WAIT (hgood : Good st) (hseen : Seen st (.WAIT u)) :
  Good (Datacenter.WAIT st u)
  := by
  have hs := hgood.toSound
  have hanswer (a : Answer ν) : Good { st with
      next := st.next + 1
      path := Function.update st.path st.next u
      answers := st.answers ++ [(st.next, a)] } := ⟨hs.answer u a, hgood.waiting⟩
  rw [Datacenter.WAIT]
  dsimp only
  cases hquery : QUERY st.database u with
  | none => exact hanswer _
  | some ret =>
      dsimp only
      by_cases hret : ret.truthy = true
      · rw [if_pos hret]
        exact hanswer _
      · rw [if_neg hret]
        cases hwait : waitfor st.next st.wait_queue u with
        | none => exact hanswer _
        | some t =>
            constructor
            · exact hs.wait hwait
            · intro w hwaits
              dsimp only at hwaits
              rw [queueAt_waitfor hwait] at hwaits
              split_ifs at hwaits with hw
              · rw [hw]
                cases ret with
                | nil => exact hquery
                | bool b =>
                    cases b with
                    | true => exact absurd rfl hret
                    | false =>
                        have hraise := hseen hquery
                        rw [hwait] at hraise
                        contradiction
                | _ => exact absurd rfl hret
              · exact hgood.waiting w hwaits

omit [DecidableEq ν] in
theorem Good.remembered (hgood : Good st) :
  Remembered st
  := by
  constructor
  · intro n hn hnot
    apply hgood.waiting
    exact List.ne_nil_of_mem (hgood.asked n hn hnot)
  · exact hgood.once

theorem good_of_init (h : (machine ν).init st) :
  Good st
  := by
  obtain ⟨-, hempty, hnext, hanswers⟩ := h
  have hnone (w : List (Key ν)) : queueAt st.wait_queue w = [] := by
    cases w with
    | nil => rfl
    | cons k w =>
        rw [queueAt_cons, hempty]
        cases w <;> rfl
  constructor
  · constructor
    · intro w n hn
      rw [hnone] at hn
      contradiction
    · intro w
      rw [hnone]
      exact List.nodup_nil
    · intro n hn
      rw [hnext] at hn
      contradiction
    · intro n hn
      rw [hanswers] at hn
      contradiction
    · rw [hanswers]
      exact List.nodup_nil
  · intro w hwaits
    exact absurd (hnone w) hwaits

theorem Good.step {l : Request ν} (hgood : Good st) (hadmitted : Admitted l) (hseen : Seen st l)
    (h : (machine ν).step st l = some st') :
  Good st'
  := by
  cases l with
  | UPDATE path value =>
      obtain rfl := Option.some.inj h
      exact hgood.UPDATE hadmitted hseen
  | QUERY path =>
      obtain rfl := Option.some.inj h
      exact hgood
  | WAIT path =>
      obtain rfl := Option.some.inj h
      exact hgood.WAIT hseen

/-- In every state reached by requests that meet `Seen`, the path of each `WAIT` that has not been answered has
no value, and none has been answered twice. -/
theorem no_waiter_forgotten (h : (machine ν).Reaches (fun st l => Admitted l ∧ Seen st l) st) :
  Remembered st
  := by
  have hgood : Good st := by
    apply Machine.invariant (fun _ => good_of_init) _ h
    intro st l st' hgood hok hstep
    exact hgood.step hok.1 hok.2 hstep
  exact hgood.remembered

/-- The service when it starts. -/
def fresh : State ℕ where
  database := .empty
  wait_queue _ := .none
  next := 0
  path _ := []
  answers := []

theorem reaches_fresh (ok : State ℕ → Request ℕ → Prop) :
  (machine ℕ).Reaches ok fresh
  := .init ⟨rfl, fun _ => rfl, rfl, rfl⟩

/-- A request waits for `a.b`. -/
def waiting : State ℕ :=
  WAIT fresh [.str "a", .str "b"]

/-- Another waits for `c`. -/
def waitingTwo : State ℕ :=
  WAIT waiting [.str "c"]

theorem reaches_WAIT {ok : State ν → Request ν → Prop} (h : (machine ν).Reaches ok st)
    (hok : ok st (.WAIT u)) :
  (machine ν).Reaches ok (WAIT st u)
  := h.step hok rfl

theorem reaches_UPDATE {ok : State ν → Request ν → Prop} (h : (machine ν).Reaches ok st)
    (hok : ok st (.UPDATE u v)) :
  (machine ν).Reaches ok (UPDATE st u v)
  := h.step hok rfl

theorem seen_of_nil (h : QUERY st.database w = some .nil) :
  Seen st (.WAIT w)
  := by
  intro hfalse
  rw [h] at hfalse
  cases hfalse

/-- The two paths. -/
theorem path_waitingTwo {w : List (Key ℕ)} (hwaits : queueAt waitingTwo.wait_queue w ≠ []) :
  w = [.str "c"] ∨ w = [.str "a", .str "b"]
  := by
  by_contra hnot
  rw [not_or] at hnot
  have hfirst : waitfor 0 fresh.wait_queue [.str "a", .str "b"] = some waiting.wait_queue := rfl
  have hsecond : waitfor 1 waiting.wait_queue [.str "c"] = some waitingTwo.wait_queue := rfl
  apply hwaits
  rw [queueAt_waitfor hsecond, if_neg hnot.1, queueAt_waitfor hfirst, if_neg hnot.2]
  cases w with
  | nil => rfl
  | cons k w => cases w <;> rfl

/-- Of the requests that wait for `a.b` and for `c`, the first is answered by an `UPDATE` of `a.b`. -/
theorem no_waiter_forgotten_nested :
  ∃ st : State ℕ, st.next = 2 ∧ st.answers.map Prod.fst = [0] ∧ Remembered st
  := by
  have hreach : (machine ℕ).Reaches (fun st l => Admitted l ∧ Seen st l) waitingTwo := by
    apply reaches_WAIT
    · exact reaches_WAIT (reaches_fresh _) ⟨trivial, seen_of_nil rfl⟩
    · exact ⟨trivial, seen_of_nil rfl⟩
  have hseen : Seen waitingTwo (.UPDATE [.str "a", .str "b"] (.str "v")) := by
    intro _ w hwaits
    rcases path_waitingTwo hwaits with rfl | rfl
    · simp
    · constructor
      · simp
      · rintro k p x q y r hw hu hne -
        rw [hu] at hw
        exact absurd (List.cons.inj (List.append_cancel_left hw)).1.symm hne
  refine ⟨UPDATE waitingTwo [.str "a", .str "b"] (.str "v"), rfl, by decide +kernel, ?_⟩
  apply no_waiter_forgotten
  exact reaches_UPDATE hreach ⟨⟨List.cons_ne_nil _ _, trivial⟩, hseen⟩

/-- A request waits for `a.b`, and `a` is given a table with a `b`. -/
theorem table_above_not_seen :
  ∃ st, (machine ℕ).Reaches (fun _ l => Admitted l) st ∧ ¬Remembered st
  := by
  refine ⟨UPDATE waiting [.str "a"] (.table fun _ => .num 1), ?_, ?_⟩
  · apply reaches_UPDATE
    · exact reaches_WAIT (reaches_fresh _) trivial
    · exact ⟨List.cons_ne_nil _ _, trivial⟩
  · intro hremembered
    have hnil := hremembered.waiting 0 (by decide +kernel) (by decide +kernel)
    have hfound : some (Value.num 1) = some (.nil : Value ℕ) := hnil
    cases hfound

end Datacenter

end Skynet
