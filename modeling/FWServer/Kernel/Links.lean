import Mathlib.Data.Nat.Notation
import Mathlib.Logic.Function.Basic

/-!
# Links between parties

Between any two parties there is a link on which messages travel, first in, first out.  What a party holds of
another is then settled by what it holds now and by the messages on the link, in order: `fold` is the value
that is reached when all of them have arrived.  It changes with a message as it is sent, and not as it arrives.
-/

universe u v w

/-- The messages on the link from one party to another. -/
abbrev Links (ι : Type u) (π : Type v) : Type (max u v) :=
  ι → ι → List π

namespace Links

variable {ι : Type u} {π : Type v} {σ : Type w} [DecidableEq ι]
variable {L : Links ι π} {a b c d : ι} {p : π} {ps rest : List π}

/-- The messages on one link become others. -/
def set (L : Links ι π) (a b : ι) (ps : List π) : Links ι π :=
  Function.update L a (Function.update (L a) b ps)

/-- Messages are sent. -/
def push (L : Links ι π) (a b : ι) (ps : List π) : Links ι π :=
  L.set a b (L a b ++ ps)

/-- What a value becomes by the messages from one party to another. -/
def fold (L : Links ι π) (f : σ → π → σ) (a b : ι) (s : σ) : σ :=
  (L a b).foldl f s

@[simp]
theorem set_self (L : Links ι π) (a b : ι) (ps : List π) :
  L.set a b ps a b = ps
  := by
  unfold set
  rw [Function.update_self, Function.update_self]

theorem set_of_ne (hne : ¬(c = a ∧ d = b)) (ps : List π) :
  L.set a b ps c d = L c d
  := by
  unfold set
  rcases eq_or_ne c a with rfl | hca
  · rw [Function.update_self, Function.update_of_ne fun hdb => hne ⟨rfl, hdb⟩]
  · rw [Function.update_of_ne hca]

theorem push_nil (L : Links ι π) (a b : ι) :
  L.push a b [] = L
  := by
  unfold push set
  rw [List.append_nil, Function.update_eq_self, Function.update_eq_self]

@[simp]
theorem push_self (L : Links ι π) (a b : ι) (ps : List π) :
  L.push a b ps a b = L a b ++ ps
  := set_self L a b _

theorem push_of_ne (hne : ¬(c = a ∧ d = b)) (ps : List π) :
  L.push a b ps c d = L c d
  := set_of_ne hne _

/-- A message on a link was on it before or has just been sent. -/
theorem mem_push (hp : p ∈ L.push a b ps c d) :
  p ∈ L c d ∨ p ∈ ps ∧ c = a ∧ d = b
  := by
  rcases Decidable.em (c = a ∧ d = b) with ⟨rfl, rfl⟩ | hne
  · rw [push_self] at hp
    exact (List.mem_append.mp hp).imp_right fun hp => ⟨hp, rfl, rfl⟩
  · rw [push_of_ne hne] at hp
    exact .inl hp

/-- A message that is left on a link was on it before. -/
theorem mem_of_mem_set (hL : L a b = p :: rest) {q : π} (hq : q ∈ L.set a b rest c d) :
  q ∈ L c d
  := by
  rcases Decidable.em (c = a ∧ d = b) with ⟨rfl, rfl⟩ | hne
  · rw [set_self] at hq
    rw [hL]
    exact List.mem_cons_of_mem p hq
  · rwa [set_of_ne hne] at hq

/-- What is sent counts at once. -/
theorem fold_push (L : Links ι π) (f : σ → π → σ) (a b : ι) (ps : List π) (s : σ) :
  (L.push a b ps).fold f a b s = ps.foldl f (L.fold f a b s)
  := by
  unfold fold
  rw [push_self, List.foldl_append]

theorem fold_push_of_ne (hne : ¬(c = a ∧ d = b)) (f : σ → π → σ) (ps : List π) (s : σ) :
  (L.push a b ps).fold f c d s = L.fold f c d s
  := by
  unfold fold
  rw [push_of_ne hne]

/-- What arrives has counted before. -/
theorem fold_receive (hL : L a b = p :: rest) (f : σ → π → σ) (s : σ) :
  (L.set a b rest).fold f a b (f s p) = L.fold f a b s
  := by
  unfold fold
  rw [set_self, hL, List.foldl_cons]

theorem fold_set_of_ne (hne : ¬(c = a ∧ d = b)) (f : σ → π → σ) (ps : List π) (s : σ) :
  (L.set a b ps).fold f c d s = L.fold f c d s
  := by
  unfold fold
  rw [set_of_ne hne]

end Links
