import Mathlib.Data.List.Basic
import Mathlib.Data.Nat.Notation

/-!
# Feistel networks and blocks

A round of a Feistel network mixes one half of a block with a function of the other half and exchanges the
halves.  Whatever the function, the rounds are undone by the same rounds with the keys in reverse order
(`rounds_reverse`).

A list is mapped block by block (`blocks`), and a map of blocks that is undone block by block is undone.
-/

namespace Feistel

variable {α κ : Type}

/-! ### Networks -/

section Networks

variable (xor : α → α → α) (f : κ → α → α)

/-- One round with a key. -/
def round (k : κ) (p : α × α) : α × α :=
  (p.2, xor p.1 (f k p.2))

/-- Rounds with the keys one after the other. -/
def rounds (ks : List κ) (p : α × α) : α × α :=
  ks.foldl (fun p k => round xor f k p) p

theorem rounds_cons (k : κ) (ks : List κ) (p : α × α) :
  rounds xor f (k :: ks) p = rounds xor f ks (round xor f k p)
  := rfl

theorem rounds_append (ks ks' : List κ) (p : α × α) :
  rounds xor f (ks ++ ks') p = rounds xor f ks' (rounds xor f ks p)
  := List.foldl_append

variable {xor}

/-- A round is undone by the same round on the exchanged halves. -/
theorem round_swap (hxor : ∀ x t, xor (xor x t) t = x) (k : κ) (p : α × α) :
  round xor f k (round xor f k p).swap = p.swap
  := by
  unfold round
  rw [Prod.swap_prod_mk, Prod.swap_prod_mk]
  rw [hxor]

/-- A network is undone by the keys in reverse order. -/
theorem rounds_reverse (hxor : ∀ x t, xor (xor x t) t = x) (ks : List κ) (p : α × α) :
  rounds xor f ks.reverse (rounds xor f ks p).swap = p.swap
  := by
  induction ks generalizing p with
  | nil => rfl
  | cons k ks ih =>
      rw [List.reverse_cons, rounds_append, rounds_cons xor f k ks, ih]
      apply round_swap f hxor

end Networks

/-! ### Blocks -/

section Blocks

variable (size : ℕ) (f g : List α → List α)

/-- The first `n` blocks of a list, each mapped by `f`. -/
def blocks : ℕ → List α → List α
  | 0, _ => []
  | n + 1, xs => f (xs.take size) ++ blocks n (xs.drop size)

variable {size f g}

theorem length_blocks (hf : ∀ b, b.length = size → (f b).length = size) {n : ℕ} {xs : List α}
    (h : n * size ≤ xs.length) :
  (blocks size f n xs).length = n * size
  := by
  induction n generalizing xs with
  | zero => exact (Nat.zero_mul size).symm
  | succ n ih =>
      rw [Nat.succ_mul] at h ⊢
      have htake : (xs.take size).length = size := by
        rw [List.length_take]
        omega
      have hdrop : n * size ≤ (xs.drop size).length := by
        rw [List.length_drop]
        omega
      rw [blocks, List.length_append, hf _ htake, ih hdrop, Nat.add_comm]

/-- The blocks of a list are those of its parts. -/
theorem blocks_add {n : ℕ} {xs : List α} (h : xs.length = n * size) (k : ℕ) (ys : List α) :
  blocks size f (n + k) (xs ++ ys) = blocks size f n xs ++ blocks size f k ys
  := by
  induction n generalizing xs with
  | zero =>
      rw [Nat.zero_mul, List.length_eq_zero_iff] at h
      rw [h, Nat.zero_add]
      rfl
  | succ n ih =>
      rw [Nat.succ_mul] at h
      have hsize : size ≤ xs.length := by omega
      have hdrop : (xs.drop size).length = n * size := by
        rw [List.length_drop]
        omega
      rw [Nat.add_right_comm, blocks, List.take_append_of_le_length hsize,
        List.drop_append_of_le_length hsize, ih hdrop, ← List.append_assoc]
      rfl

/-- One more block. -/
theorem blocks_succ {n : ℕ} {xs : List α} (h : xs.length = n * size) {b : List α} (hb : b.length = size) :
  blocks size f (n + 1) (xs ++ b) = blocks size f n xs ++ f b
  := by
  rw [blocks_add h, blocks, blocks, List.append_nil, List.take_of_length_le (Nat.le_of_eq hb)]

/-- What is undone block by block is undone. -/
theorem blocks_blocks (hf : ∀ b, b.length = size → (f b).length = size)
    (hg : ∀ b, b.length = size → g (f b) = b) {n : ℕ} {xs : List α} (h : xs.length = n * size) :
  blocks size g n (blocks size f n xs) = xs
  := by
  induction n generalizing xs with
  | zero =>
      rw [Nat.zero_mul, List.length_eq_zero_iff] at h
      exact h.symm
  | succ n ih =>
      rw [Nat.succ_mul] at h
      have htake : (xs.take size).length = size := by
        rw [List.length_take]
        omega
      have hdrop : (xs.drop size).length = n * size := by
        rw [List.length_drop]
        omega
      rw [blocks, blocks, List.take_left' (hf _ htake), List.drop_left' (hf _ htake), hg _ htake, ih hdrop,
        List.take_append_drop]

end Blocks

end Feistel
