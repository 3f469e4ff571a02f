import Mathlib.Data.Nat.Notation
import Mathlib.Logic.Basic

/-!
# Readers

A `Reader` is a program that takes elements of its input, a number of them at a time, and returns a value or fails.
Where the elements come from is up to a source: `run` is given what a source does when so many elements are taken.

`run_alike` is the comparison of two sources: if they give the same elements whenever they are in related states, then
a reader comes to the same over both, and so does a sequence of `calls`.  The plainest source is a list; `Reads` says
that a reader takes all of a list, and `Reads.bind` puts two lists together.
-/

/-- A program that takes its input from a source. -/
inductive Reader (β ε α : Type) where
  | ret (a : α)
  | fail (e : ε)
  | take (n : ℕ) (k : List β → Reader β ε α)

namespace Reader

variable {β ε α γ σ τ : Type}

/-- What is read is passed on. -/
def bind : Reader β ε α → (α → Reader β ε γ) → Reader β ε γ
  | .ret a, f => f a
  | .fail e, _ => .fail e
  | .take n k, f => .take n fun bs => (k bs).bind f

instance : Monad (Reader β ε) where
  pure := .ret
  bind := .bind

/-- So many elements. -/
def elements (n : ℕ) : Reader β ε (List β) :=
  .take n .ret

/-! ### Sources -/

/-- Runs a reader over a source. -/
def run (source : σ → ℕ → Except ε (List β × σ)) : Reader β ε α → σ → Except ε (α × σ)
  | .ret a, s => .ok (a, s)
  | .fail e, _ => .error e
  | .take n k, s =>
      match source s n with
      | .ok (bs, s) => (k bs).run source s
      | .error e => .error e

theorem run_bind {source : σ → ℕ → Except ε (List β × σ)} {r : Reader β ε α} {f : α → Reader β ε γ} {s s' : σ} {a : α}
    (h : r.run source s = .ok (a, s')) :
  (r >>= f).run source s = (f a).run source s'
  := by
  induction r generalizing s with
  | ret b =>
      obtain ⟨rfl, rfl⟩ := Prod.mk.inj (Except.ok.inj h)
      rfl
  | fail e => cases h
  | take n k ih =>
      rw [run] at h
      change run source (.take n fun bs => k bs >>= f) s = _
      rw [run]
      cases hsource : source s n with
      | error e =>
          rw [hsource] at h
          cases h
      | ok x =>
          rw [hsource] at h
          exact ih x.1 h

/-- Two runs come to the same, and leave the sources in related states. -/
inductive Alike (R : σ → τ → Prop) : Except ε (α × σ) → Except ε (α × τ) → Prop
  | ok {a : α} {s : σ} {t : τ} (h : R s t) : Alike R (.ok (a, s)) (.ok (a, t))
  | error (e : ε) : Alike R (.error e) (.error e)

/-- A reader comes to the same over two sources that give the same elements. -/
theorem run_alike {source : σ → ℕ → Except ε (List β × σ)} {source' : τ → ℕ → Except ε (List β × τ)}
    {R : σ → τ → Prop}
    (hsource : ∀ s t n, R s t → Alike R (source s n) (source' t n)) (r : Reader β ε α) {s : σ} {t : τ} (h : R s t) :
  Alike R (r.run source s) (r.run source' t)
  := by
  induction r generalizing s t with
  | ret a => exact .ok h
  | fail e => exact .error e
  | take n k ih =>
      rw [run, run]
      have htake := hsource s t n h
      generalize source s n = x at htake
      generalize source' t n = y at htake
      cases htake with
      | ok h' => exact ih _ h'
      | error e => exact .error e

/-! ### Repeated runs -/

/-- What so many calls come to: each gives a value or an error, or nothing at the end of the input.  There is no call
after an error or the end. -/
def calls (next : σ → Option (Except ε (α × σ))) : ℕ → σ → List (Option (Except ε α))
  | 0, _ => []
  | k + 1, s =>
      match next s with
      | none => [none]
      | some (.error e) => [some (.error e)]
      | some (.ok (a, s)) => some (.ok a) :: calls next k s

/-- Calls come to the same over sources that are at the end together and otherwise come to the same. -/
theorem calls_alike {next : σ → Option (Except ε (α × σ))} {next' : τ → Option (Except ε (α × τ))} {R : σ → τ → Prop}
    (hnext : ∀ s t, R s t → next s = none ∧ next' t = none ∨
      ∃ x y, next s = some x ∧ next' t = some y ∧ Alike R x y) (k : ℕ) {s : σ} {t : τ} (h : R s t) :
  calls next k s = calls next' k t
  := by
  induction k generalizing s t with
  | zero => rfl
  | succ k ih =>
      unfold calls
      obtain ⟨hs, ht⟩ | ⟨x, y, hs, ht, halike⟩ := hnext s t h
      · rw [hs, ht]
      · rw [hs, ht]
        cases halike with
        | ok h' =>
            dsimp only
            rw [ih h']
        | error e => rfl

/-! ### Lists -/

/-- The list as a source, which fails when it is too short. -/
def ofList (missing : ε) (l : List β) (n : ℕ) : Except ε (List β × List β) :=
  if n ≤ l.length then .ok (l.take n, l.drop n) else .error missing

/-- Over a list and whatever follows it, the reader takes the list and returns the value. -/
def Reads (missing : ε) (r : Reader β ε α) (l : List β) (a : α) : Prop :=
  ∀ rest, r.run (ofList missing) (l ++ rest) = .ok (a, rest)

variable {missing : ε}

theorem reads_ret (a : α) :
  (.ret a : Reader β ε α).Reads missing [] a
  := fun _ => rfl

theorem reads_elements (l : List β) :
  (elements l.length : Reader β ε (List β)).Reads missing l l
  := by
  intro rest
  have hle : l.length ≤ (l ++ rest).length := by
    rw [List.length_append]
    exact Nat.le_add_right _ _
  change run (ofList missing) (.take l.length .ret) (l ++ rest) = _
  rw [run, ofList, if_pos hle, List.take_left, List.drop_left]
  rfl

theorem Reads.bind {r : Reader β ε α} {f : α → Reader β ε γ} {l m : List β} {a : α} {c : γ} (h : r.Reads missing l a)
    (hf : (f a).Reads missing m c) :
  (r >>= f).Reads missing (l ++ m) c
  := by
  intro rest
  rw [List.append_assoc, run_bind (h (m ++ rest))]
  exact hf rest

end Reader
