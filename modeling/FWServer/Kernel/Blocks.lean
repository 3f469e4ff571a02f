import Mathlib.Algebra.GroupWithZero.Nat
import Mathlib.Data.List.Basic
import Mathlib.Data.Nat.Notation

/-!
# Buffers made of blocks

A `Blocks` is a buffer that grows by blocks of a fixed size: all of its blocks are full but the last, which
is filled up to a position.  What is written may be split over any number of blocks.

`Blocks.contents` is what has been written, `contents_push` says that writing appends, and `collect_blocks`
that the blocks copied one after another give the contents.
-/

universe u

/-- A list of full blocks and the block that is being filled. -/
structure Blocks (α : Type u) (size : ℕ) where
  filled : List (List α)
  current : List α
  filled_length : ∀ b ∈ filled, b.length = size
  current_length : current.length ≤ size

namespace Blocks

variable {α : Type u} {size : ℕ}

/-- One empty block. -/
def empty : Blocks α size where
  filled := []
  current := []
  filled_length := by simp
  current_length := Nat.zero_le size

/-- The position in the block that is being filled. -/
def ptr (b : Blocks α size) : ℕ :=
  b.current.length

/-- What has been written. -/
def contents (b : Blocks α size) : List α :=
  b.filled.flatten ++ b.current

/-- The blocks in order. -/
def blocks (b : Blocks α size) : List (List α) :=
  b.filled ++ [b.current]

/-- Puts elements in the current block. -/
def put (b : Blocks α size) (xs : List α) (h : b.ptr + xs.length ≤ size) : Blocks α size where
  filled := b.filled
  current := b.current ++ xs
  filled_length := b.filled_length
  current_length := by
    rw [List.length_append]
    exact h

/-- Goes on to a new block. -/
def alloc (b : Blocks α size) (h : b.ptr = size) : Blocks α size where
  filled := b.filled ++ [b.current]
  current := []
  filled_length := by
    intro c hc
    rcases List.mem_append.mp hc with hc | hc
    · exact b.filled_length c hc
    · rw [List.mem_singleton.mp hc]
      exact h
  current_length := Nat.zero_le size

theorem ptr_put (b : Blocks α size) (xs : List α) (h : b.ptr + xs.length ≤ size) :
  (b.put xs h).ptr = b.ptr + xs.length
  := List.length_append

/-- What is left of the current block holds so many of the elements. -/
theorem ptr_take {b : Blocks α size} {xs : List α} (h : ¬ b.ptr + xs.length ≤ size) :
  b.ptr + (xs.take (size - b.ptr)).length = size
  := by
  have hptr : b.ptr ≤ size := b.current_length
  rw [List.length_take]
  omega

/-- Copies elements to the current block, or as many as it holds and the others to new blocks. -/
def copy [NeZero size] (b : Blocks α size) (xs : List α) : Blocks α size :=
  if h : b.ptr + xs.length ≤ size then b.put xs h
  else
    let full := b.put (xs.take (size - b.ptr)) (Nat.le_of_eq (ptr_take h))
    (full.alloc ((ptr_put b _ _).trans (ptr_take h))).copy (xs.drop (size - b.ptr))
termination_by xs.length + b.ptr
decreasing_by
  have hsize : 0 < size := Nat.pos_of_ne_zero (NeZero.ne size)
  have hptr : b.ptr ≤ size := b.current_length
  have hnew : ∀ c : Blocks α size, ∀ hc, (c.alloc hc).ptr = 0 := fun _ _ => rfl
  rw [hnew, List.length_drop]
  omega

/-- Writes elements: a block that is full is left first. -/
def push [NeZero size] (b : Blocks α size) (xs : List α) : Blocks α size :=
  if h : b.ptr = size then (b.alloc h).copy xs else b.copy xs

/-- The first `len` elements of a list of blocks, copied block by block. -/
def collect (size : ℕ) : List (List α) → ℕ → List α
  | [], _ => []
  | b :: bs, len =>
      if len = 0 then []
      else if len ≥ size then b.take size ++ collect size bs (len - size)
      else b.take len

/-! ### What they do to the contents -/

theorem contents_put (b : Blocks α size) (xs : List α) (h : b.ptr + xs.length ≤ size) :
  (b.put xs h).contents = b.contents ++ xs
  := (List.append_assoc _ _ _).symm

theorem contents_alloc (b : Blocks α size) (h : b.ptr = size) :
  (b.alloc h).contents = b.contents
  := by
  simp only [contents, alloc, List.flatten_append, List.flatten_singleton, List.append_nil]

theorem contents_copy [NeZero size] (b : Blocks α size) (xs : List α) :
  (b.copy xs).contents = b.contents ++ xs
  := by
  fun_induction copy b xs with
  | case1 b xs h => exact contents_put b xs h
  | case2 b xs h full ih =>
      rw [ih, contents_alloc, contents_put, List.append_assoc, List.take_append_drop]

/-- Writing appends, wherever the blocks end. -/
@[simp]
theorem contents_push [NeZero size] (b : Blocks α size) (xs : List α) :
  (b.push xs).contents = b.contents ++ xs
  := by
  unfold push
  split
  · rw [contents_copy, contents_alloc]
  · exact contents_copy b xs

/-- Full blocks followed by one that is not too long are copied whole. -/
theorem collect_append (fs : List (List α)) (c : List α) (hfs : ∀ b ∈ fs, b.length = size)
    (hc : c.length ≤ size) :
  collect size (fs ++ [c]) (fs.flatten ++ c).length = fs.flatten ++ c
  := by
  induction fs with
  | nil =>
      simp only [List.nil_append, List.flatten_nil, collect]
      split_ifs with hzero hfull
      · exact (List.length_eq_zero_iff.mp hzero).symm
      · rw [List.append_nil, List.take_of_length_le hc]
      · exact List.take_length
  | cons b fs ih =>
      have hb : b.length = size := hfs b List.mem_cons_self
      have hrest := ih fun d hd => hfs d (List.mem_cons_of_mem b hd)
      have hlen : (((b :: fs).flatten) ++ c).length = size + (fs.flatten ++ c).length := by
        rw [List.flatten_cons, List.append_assoc, List.length_append, hb]
      rw [hlen, List.cons_append, collect, List.flatten_cons, List.append_assoc]
      split_ifs with hzero hfull
      · have hbnil : b = [] := List.length_eq_zero_iff.mp (by omega)
        have hnil : fs.flatten ++ c = [] := List.length_eq_zero_iff.mp (by omega)
        rw [hbnil, hnil, List.append_nil]
      · rw [Nat.add_sub_cancel_left, hrest, List.take_of_length_le (Nat.le_of_eq hb)]
      · omega

/-- The blocks, copied up to the number of elements written, give the contents. -/
theorem collect_blocks (b : Blocks α size) :
  collect size b.blocks b.contents.length = b.contents
  := collect_append b.filled b.current b.filled_length b.current_length

end Blocks
