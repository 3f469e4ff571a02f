import Mathlib.Logic.Basic

/-!
# Coroutines

A coroutine runs in a process whose state it shares with the other coroutines of the
process.  It reads and replaces that state, puts out messages nobody answers, raises errors,
and *calls*: it hands a query to the outside and is suspended until the reply resumes it.
Between two calls it runs undisturbed, so a coroutine is a tree whose only points of
interleaving are its calls.

`Coroutine.resume` runs a coroutine to its next call or its end, and `Coroutine.serve` runs
it against a server that answers its calls one after the other, with no other coroutine in
between.
-/

/-- What the coroutines of a process share and exchange with the outside. -/
structure Interface where
  State : Type
  Query : Type
  Reply : Type
  Output : Type
  Error : Type

/-- A coroutine over the interface `I` returning a value of `α`. -/
inductive Coroutine (I : Interface) (α : Type) : Type where
  | ret (a : α)
  | raise (e : I.Error)
  | read (k : I.State → Coroutine I α)
  | write (s : I.State) (k : Coroutine I α)
  | emit (o : I.Output) (k : Coroutine I α)
  | call (q : I.Query) (k : I.Reply → Coroutine I α)

namespace Coroutine

variable {I : Interface} {α β ω : Type}

/-- `c` followed by `f` on the value it returns. -/
def andThen : Coroutine I α → (α → Coroutine I β) → Coroutine I β
  | .ret a, f => f a
  | .raise e, _ => .raise e
  | .read k, f => .read fun s => (k s).andThen f
  | .write s k, f => .write s (k.andThen f)
  | .emit o k, f => .emit o (k.andThen f)
  | .call q k, f => .call q fun r => (k r).andThen f

instance : Monad (Coroutine I) where
  pure := .ret
  bind := andThen

/-- The state of the process. -/
def get : Coroutine I I.State :=
  .read .ret

/-- Changes the state of the process by `f`. -/
def modify (f : I.State → I.State) : Coroutine I Unit :=
  .read fun s => .write (f s) (.ret ())

/-- Puts out a message. -/
def send (o : I.Output) : Coroutine I Unit :=
  .emit o (.ret ())

/-- Raises an error. -/
def error (e : I.Error) : Coroutine I α :=
  .raise e

/-! ### The laws of the monad -/

@[simp]
theorem pure_eq (a : α) :
  (pure a : Coroutine I α) = .ret a
  := rfl

@[simp]
theorem ret_bind (a : α) (f : α → Coroutine I β) :
  (Coroutine.ret a >>= f) = f a
  := rfl

@[simp]
theorem raise_bind (e : I.Error) (f : α → Coroutine I β) :
  (Coroutine.raise e >>= f) = .raise e
  := rfl

@[simp]
theorem read_bind (k : I.State → Coroutine I α) (f : α → Coroutine I β) :
  (Coroutine.read k >>= f) = .read fun s => k s >>= f
  := rfl

@[simp]
theorem write_bind (s : I.State) (k : Coroutine I α) (f : α → Coroutine I β) :
  (Coroutine.write s k >>= f) = .write s (k >>= f)
  := rfl

@[simp]
theorem emit_bind (o : I.Output) (k : Coroutine I α) (f : α → Coroutine I β) :
  (Coroutine.emit o k >>= f) = .emit o (k >>= f)
  := rfl

@[simp]
theorem call_bind (q : I.Query) (k : I.Reply → Coroutine I α) (f : α → Coroutine I β) :
  (Coroutine.call q k >>= f) = .call q fun r => k r >>= f
  := rfl

/-- Sequencing is associative. -/
theorem bind_bind {γ : Type} (c : Coroutine I α) (f : α → Coroutine I β)
    (g : β → Coroutine I γ) :
  (c >>= f >>= g) = c >>= fun a => f a >>= g
  := by
  induction c with
  | ret a => rfl
  | raise e => rfl
  | read k ih => exact congrArg Coroutine.read (funext ih)
  | write s k ih => exact congrArg (Coroutine.write s) ih
  | emit o k ih => exact congrArg (Coroutine.emit o) ih
  | call q k ih => exact congrArg (Coroutine.call q) (funext ih)

/-- A sequence that ends with what its first part returns is its first part. -/
theorem bind_ret (c : Coroutine I α) :
  (c >>= .ret) = c
  := by
  induction c with
  | ret a => rfl
  | raise e => rfl
  | read k ih => exact congrArg Coroutine.read (funext ih)
  | write s k ih => exact congrArg (Coroutine.write s) ih
  | emit o k ih => exact congrArg (Coroutine.emit o) ih
  | call q k ih => exact congrArg (Coroutine.call q) (funext ih)

/-- Mapping over a sequence maps over its second part. -/
theorem map_bind {γ : Type} (f : β → γ) (c : Coroutine I α) (g : α → Coroutine I β) :
  f <$> (c >>= g) = c >>= fun a => f <$> g a
  := bind_bind c g fun b => .ret (f b)

/-! ### Running to the next call -/

/-- How a stretch of a coroutine ends. -/
inductive Halt (I : Interface) (α : Type) where
  | returned (a : α)
  | raised (e : I.Error)
  | waiting (q : I.Query) (k : I.Reply → Coroutine I α)

/-- A stretch of a coroutine between two suspensions: what it put out, the state it left and
how it ended. -/
structure Stretch (I : Interface) (α : Type) where
  outputs : List I.Output
  state : I.State
  halt : Halt I α

/-- Runs a coroutine from the state `s` to its next call or its end. -/
def resume : Coroutine I α → I.State → Stretch I α
  | .ret a, s => ⟨[], s, .returned a⟩
  | .raise e, s => ⟨[], s, .raised e⟩
  | .read k, s => (k s).resume s
  | .write s k, _ => k.resume s
  | .emit o k, s => { k.resume s with outputs := o :: (k.resume s).outputs }
  | .call q k, s => ⟨[], s, .waiting q k⟩

/-- What is left of a stretch once `g` follows it. -/
def Stretch.andThen (x : Stretch I α) (g : α → Coroutine I β) : Stretch I β :=
  match x.halt with
  | .returned a =>
      let y := (g a).resume x.state
      { y with outputs := x.outputs ++ y.outputs }
  | .raised e => ⟨x.outputs, x.state, .raised e⟩
  | .waiting q k => ⟨x.outputs, x.state, .waiting q fun r => k r >>= g⟩

/-- A sequence runs to its next call by running its parts one after the other. -/
theorem resume_bind (c : Coroutine I α) (g : α → Coroutine I β) (s : I.State) :
  (c >>= g).resume s = (c.resume s).andThen g
  := by
  induction c generalizing s with
  | ret a => rfl
  | raise e => rfl
  | read k ih => apply ih
  | write t k ih => apply ih
  | emit o k ih =>
      simp only [emit_bind, resume, ih, Stretch.andThen]
      split <;> rfl
  | call q k => rfl

/-- A sequence whose first part returns without a call and without putting anything out goes on
with its second part. -/
theorem resume_bind_of_returned {c : Coroutine I α} {g : α → Coroutine I β} {s t : I.State}
    {a : α} (h : c.resume s = ⟨[], t, .returned a⟩) :
  (c >>= g).resume s = (g a).resume t
  := by
  rw [resume_bind, h]
  rfl

/-- A sequence whose first part raises an error raises it. -/
theorem resume_bind_of_raised {c : Coroutine I α} {g : α → Coroutine I β} {s t : I.State}
    {e : I.Error} (h : c.resume s = ⟨[], t, .raised e⟩) :
  (c >>= g).resume s = ⟨[], t, .raised e⟩
  := by
  rw [resume_bind, h]
  rfl

/-- A sequence whose first part calls goes on with its second part after the reply. -/
theorem resume_bind_of_waiting {c : Coroutine I α} {g : α → Coroutine I β} {s t : I.State}
    {q : I.Query} {k : I.Reply → Coroutine I α} (h : c.resume s = ⟨[], t, .waiting q k⟩) :
  (c >>= g).resume s = ⟨[], t, .waiting q fun r => k r >>= g⟩
  := by
  rw [resume_bind, h]
  rfl

/-! ### Running against a server -/

/-- A run against a server with states `ω`: what was put out, the state of the process and of
the server at the end, and how it ended.  It waits at a call the server declines. -/
structure Service (I : Interface) (ω α : Type) where
  outputs : List I.Output
  state : I.State
  server : ω
  halt : Halt I α

/-- Runs a coroutine from the state `s`, every call answered at once by `f`. -/
def serve (f : I.Query → ω → Option (I.Reply × ω)) :
    Coroutine I α → I.State → ω → Service I ω α
  | .ret a, s, w => ⟨[], s, w, .returned a⟩
  | .raise e, s, w => ⟨[], s, w, .raised e⟩
  | .read k, s, w => (k s).serve f s w
  | .write s k, _, w => k.serve f s w
  | .emit o k, s, w => { k.serve f s w with outputs := o :: (k.serve f s w).outputs }
  | .call q k, s, w =>
      match f q w with
      | none => ⟨[], s, w, .waiting q k⟩
      | some (r, w') => (k r).serve f s w'

/-- What is left of a run once `g` follows it. -/
def Service.andThen (f : I.Query → ω → Option (I.Reply × ω)) (x : Service I ω α)
    (g : α → Coroutine I β) : Service I ω β :=
  match x.halt with
  | .returned a =>
      let y := (g a).serve f x.state x.server
      { y with outputs := x.outputs ++ y.outputs }
  | .raised e => ⟨x.outputs, x.state, x.server, .raised e⟩
  | .waiting q k => ⟨x.outputs, x.state, x.server, .waiting q fun r => k r >>= g⟩

/-- A sequence is served by serving its parts one after the other. -/
theorem serve_bind (f : I.Query → ω → Option (I.Reply × ω)) (c : Coroutine I α)
    (g : α → Coroutine I β) (s : I.State) (w : ω) :
  (c >>= g).serve f s w = (c.serve f s w).andThen f g
  := by
  induction c generalizing s w with
  | ret a => rfl
  | raise e => rfl
  | read k ih => apply ih
  | write t k ih => apply ih
  | emit o k ih =>
      simp only [emit_bind, serve, ih, Service.andThen]
      split <;> rfl
  | call q k ih =>
      simp only [call_bind, serve]
      cases f q w with
      | none => rfl
      | some r => apply ih

/-- A sequence whose first part returns ends as its second part does. -/
theorem serve_bind_halt {f : I.Query → ω → Option (I.Reply × ω)} {c : Coroutine I α}
    {g : α → Coroutine I β} {s : I.State} {w : ω} {a : α}
    (h : (c.serve f s w).halt = .returned a) :
  ((c >>= g).serve f s w).halt
    = ((g a).serve f (c.serve f s w).state (c.serve f s w).server).halt
  := by
  rw [serve_bind, Service.andThen, h]

/-- A sequence whose first part raises an error raises it. -/
theorem serve_bind_raised {f : I.Query → ω → Option (I.Reply × ω)} {c : Coroutine I α}
    {g : α → Coroutine I β} {s : I.State} {w : ω} {e : I.Error}
    (h : (c.serve f s w).halt = .raised e) :
  ((c >>= g).serve f s w).halt = .raised e
  := by
  rw [serve_bind, Service.andThen, h]

/-- The server is asked for the first time where the first stretch ends. -/
theorem serve_eq_resume (f : I.Query → ω → Option (I.Reply × ω)) (c : Coroutine I α)
    (s : I.State) (w : ω) :
  c.serve f s w =
    let x := c.resume s
    match x.halt with
    | .returned a => ⟨x.outputs, x.state, w, .returned a⟩
    | .raised e => ⟨x.outputs, x.state, w, .raised e⟩
    | .waiting q k =>
        match f q w with
        | none => ⟨x.outputs, x.state, w, .waiting q k⟩
        | some (r, w') =>
            let y := (k r).serve f x.state w'
            { y with outputs := x.outputs ++ y.outputs }
  := by
  induction c generalizing s with
  | ret a => rfl
  | raise e => rfl
  | read k ih => apply ih
  | write t k ih => apply ih
  | emit o k ih =>
      simp only [serve, ih, resume]
      split
      · rfl
      · rfl
      · split <;> rfl
  | call q k =>
      simp only [serve, resume]
      split <;> rfl

/-- A coroutine that returns without a call does not need the server. -/
theorem serve_of_returned (f : I.Query → ω → Option (I.Reply × ω)) {c : Coroutine I α}
    {s t : I.State} {out : List I.Output} {a : α} (h : c.resume s = ⟨out, t, .returned a⟩)
    (w : ω) :
  c.serve f s w = ⟨out, t, w, .returned a⟩
  := by
  rw [serve_eq_resume, h]

/-- A coroutine that raises an error without a call does not need the server. -/
theorem serve_of_raised (f : I.Query → ω → Option (I.Reply × ω)) {c : Coroutine I α}
    {s t : I.State} {out : List I.Output} {e : I.Error} (h : c.resume s = ⟨out, t, .raised e⟩)
    (w : ω) :
  c.serve f s w = ⟨out, t, w, .raised e⟩
  := by
  rw [serve_eq_resume, h]

/-! ### Invariants at the points of interleaving -/

/-- `c.Ensures A P Q s`: run from `s`, the coroutine leaves a state of `P` whenever it calls
or raises; resumed in any state of `P` with a reply the assumption `A` allows there it does so
again; and the value and state it returns with satisfy `Q`. -/
def Ensures (A : I.Query → I.Reply → I.State → Prop) (P : I.State → Prop)
    (Q : α → I.State → Prop) : Coroutine I α → I.State → Prop
  | .ret a, s => Q a s
  | .raise _, s => P s
  | .read k, s => (k s).Ensures A P Q s
  | .write s k, _ => k.Ensures A P Q s
  | .emit _ k, s => k.Ensures A P Q s
  | .call q k, s => P s ∧ ∀ r s', P s' → A q r s' → (k r).Ensures A P Q s'

variable {A : I.Query → I.Reply → I.State → Prop} {P : I.State → Prop}

/-- The rule of sequencing. -/
theorem ensures_bind {Q : β → I.State → Prop} (c : Coroutine I α) (f : α → Coroutine I β)
    (s : I.State) :
  (c >>= f).Ensures A P Q s ↔ c.Ensures A P (fun a t => (f a).Ensures A P Q t) s
  := by
  induction c generalizing s with
  | ret a => exact Iff.rfl
  | raise e => exact Iff.rfl
  | read k ih => exact ih s s
  | write t k ih => exact ih t
  | emit o k ih => exact ih s
  | call q k ih =>
      constructor
      · rintro ⟨hs, hk⟩
        exact ⟨hs, fun r t ht hr => (ih r t).mp (hk r t ht hr)⟩
      · rintro ⟨hs, hk⟩
        exact ⟨hs, fun r t ht hr => (ih r t).mpr (hk r t ht hr)⟩

/-- What is ensured is read off the first stretch. -/
theorem ensures_iff_resume {Q : α → I.State → Prop} (c : Coroutine I α) (s : I.State) :
  c.Ensures A P Q s ↔
    let x := c.resume s
    match x.halt with
    | .returned a => Q a x.state
    | .raised _ => P x.state
    | .waiting q k => P x.state ∧ ∀ r s', P s' → A q r s' → (k r).Ensures A P Q s'
  := by
  induction c generalizing s with
  | ret a => exact Iff.rfl
  | raise e => exact Iff.rfl
  | read k ih => exact ih s s
  | write t k ih => exact ih t
  | emit o k ih => exact ih s
  | call q k => exact Iff.rfl

/-- Two coroutines that run to the same point ensure the same. -/
theorem ensures_congr {Q : α → I.State → Prop} {c c' : Coroutine I α} {s s' : I.State}
    (h : c.resume s = c'.resume s') :
  c.Ensures A P Q s ↔ c'.Ensures A P Q s'
  := by
  rw [ensures_iff_resume, ensures_iff_resume, h]

end Coroutine
