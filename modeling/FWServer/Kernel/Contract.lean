import FWServer.Kernel.Coroutine

/-!
# Contracts of coroutines

A `Contract` says what a coroutine owes at its calls, and what it may expect of the replies.  Both
may depend on what the coroutine has asked so far and on the state in which it was resumed last, so
that a contract can speak of what a single stretch of a coroutine does to the state it shares.

`Coroutine.Obeys` is the weakest condition under which a coroutine keeps a contract and returns with
a given postcondition; `obeys_bind` is the rule of sequencing, and `obeys_iff_resume` reads the
condition off the first stretch.
-/

/-- What a coroutine has behind it: the queries it has called with, newest first, the state it was
started or resumed in last, and what it has put out since. -/
structure Past (I : Interface) where
  asked : List I.Query
  began : I.State
  outputs : List I.Output

/-- What a coroutine may expect of a reply and of the state it is resumed in, and what it owes when
it calls and when it raises an error. -/
structure Contract (I : Interface) where
  replies : I.Query → I.Reply → I.State → Prop
  calls : Past I → I.Query → I.State → Prop
  raises : Past I → I.State → Prop

namespace Coroutine

variable {I : Interface} {α β : Type} {K : Contract I}

/-- Run from the state `s` with the past `p`, the coroutine keeps the contract `K`, and the value
and state it returns with satisfy `Q`. -/
def Obeys (K : Contract I) (Q : Past I → α → I.State → Prop) :
    Coroutine I α → Past I → I.State → Prop
  | .ret a, p, s => Q p a s
  | .raise _, p, s => K.raises p s
  | .read k, p, s => (k s).Obeys K Q p s
  | .write t k, p, _ => k.Obeys K Q p t
  | .emit o k, p, s => k.Obeys K Q { p with outputs := p.outputs ++ [o] } s
  | .call q k, p, s =>
      K.calls p q s ∧
        ∀ r s', K.replies q r s' → (k r).Obeys K Q ⟨q :: p.asked, s', []⟩ s'

/-- The rule of sequencing. -/
theorem obeys_bind {Q : Past I → β → I.State → Prop} (c : Coroutine I α)
    (f : α → Coroutine I β) (p : Past I) (s : I.State) :
  (c >>= f).Obeys K Q p s ↔ c.Obeys K (fun p a t => (f a).Obeys K Q p t) p s
  := by
  induction c generalizing p s with
  | ret a => exact Iff.rfl
  | raise e => exact Iff.rfl
  | read k ih => exact ih s p s
  | write t k ih => exact ih p t
  | emit o k ih => exact ih _ s
  | call q k ih =>
      constructor
      · rintro ⟨hcall, hk⟩
        exact ⟨hcall, fun r t hr => (ih r _ t).mp (hk r t hr)⟩
      · rintro ⟨hcall, hk⟩
        exact ⟨hcall, fun r t hr => (ih r _ t).mpr (hk r t hr)⟩

/-- The rule of consequence. -/
theorem Obeys.mono {Q Q' : Past I → α → I.State → Prop} (hQ : ∀ p a s, Q p a s → Q' p a s)
    {c : Coroutine I α} {p : Past I} {s : I.State} (h : c.Obeys K Q p s) :
  c.Obeys K Q' p s
  := by
  induction c generalizing p s with
  | ret a => exact hQ p a s h
  | raise e => exact h
  | read k ih => exact ih s h
  | write t k ih => exact ih h
  | emit o k ih => exact ih h
  | call q k ih => exact ⟨h.1, fun r t hr => ih r (h.2 r t hr)⟩

/-- A sequence obeys a contract when its first part does, up to a condition from which the second
part does. -/
theorem Obeys.bind {Q : Past I → α → I.State → Prop} {Q' : Past I → β → I.State → Prop}
    {c : Coroutine I α} {f : α → Coroutine I β} {p : Past I} {s : I.State}
    (h : c.Obeys K Q p s) (hf : ∀ p a t, Q p a t → (f a).Obeys K Q' p t) :
  (c >>= f).Obeys K Q' p s
  := (obeys_bind c f p s).mpr (h.mono hf)

/-- Whether a contract is kept is read off the first stretch. -/
theorem obeys_iff_resume {Q : Past I → α → I.State → Prop} (c : Coroutine I α) (p : Past I)
    (s : I.State) :
  c.Obeys K Q p s ↔
    let x := c.resume s
    let p' : Past I := { p with outputs := p.outputs ++ x.outputs }
    match x.halt with
    | .returned a => Q p' a x.state
    | .raised _ => K.raises p' x.state
    | .waiting q k => K.calls p' q x.state ∧
        ∀ r s', K.replies q r s' → (k r).Obeys K Q ⟨q :: p.asked, s', []⟩ s'
  := by
  induction c generalizing p s with
  | ret a => simp [Obeys, resume]
  | raise e => simp [Obeys, resume]
  | read k ih => exact ih s p s
  | write t k ih => exact ih p t
  | emit o k ih =>
      rw [Obeys, ih]
      simp only [resume, List.append_assoc, List.singleton_append]
  | call q k => simp [Obeys, resume]

/-- Two coroutines that run to the same point keep the same contracts. -/
theorem obeys_congr {Q : Past I → α → I.State → Prop} {c c' : Coroutine I α} {p : Past I}
    {s s' : I.State} (h : c.resume s = c'.resume s') :
  c.Obeys K Q p s ↔ c'.Obeys K Q p s'
  := by
  rw [obeys_iff_resume, obeys_iff_resume, h]

/-- A coroutine that runs to a return without putting anything out. -/
theorem obeys_of_returned {Q : Past I → α → I.State → Prop} {c : Coroutine I α} {p : Past I}
    {s t : I.State} {a : α} (h : c.resume s = ⟨[], t, .returned a⟩) (hQ : Q p a t) :
  c.Obeys K Q p s
  := by
  rw [obeys_iff_resume, h]
  simpa using hQ

/-- A coroutine that runs to an error without putting anything out. -/
theorem obeys_of_raised {Q : Past I → α → I.State → Prop} {c : Coroutine I α} {p : Past I}
    {s t : I.State} {e : I.Error} (h : c.resume s = ⟨[], t, .raised e⟩) (hK : K.raises p t) :
  c.Obeys K Q p s
  := by
  rw [obeys_iff_resume, h]
  simpa using hK

/-- A coroutine that runs to a call without putting anything out. -/
theorem obeys_of_waiting {Q : Past I → α → I.State → Prop} {c : Coroutine I α} {p : Past I}
    {s t : I.State} {q : I.Query} {k : I.Reply → Coroutine I α}
    (h : c.resume s = ⟨[], t, .waiting q k⟩) (hK : K.calls p q t)
    (hk : ∀ r s', K.replies q r s' → (k r).Obeys K Q ⟨q :: p.asked, s', []⟩ s') :
  c.Obeys K Q p s
  := by
  rw [obeys_iff_resume, h]
  constructor
  · simpa using hK
  · exact hk

end Coroutine
