import Mathlib.Data.Nat.Notation
import Mathlib.Logic.Function.Basic
import Mathlib.Order.Basic
import Mathlib.Tactic.SplitIfs

/-!
# Ring buffers

A `RingBuffer` keeps a queue in an array of `cap` slots: its elements are those from `head` on, around the
end of the array, up to `tail`.  An empty ring has its head at its tail, so a ring that has become full
is moved to a larger array at once.

`RingBuffer.contents` is the queue a ring stands for, and `contents_push` and `contents_pop` say what the
operations do to it.
-/

universe u

/-- An array of `cap` slots used as a ring. -/
structure RingBuffer (α : Type u) where
  cap : ℕ
  head : ℕ
  tail : ℕ
  slots : ℕ → α
  head_lt : head < cap
  tail_lt : tail < cap

namespace RingBuffer

variable {α : Type u}

/-- The slot after `i` in an array of `cap` slots. -/
def next (cap i : ℕ) : ℕ :=
  if i + 1 ≥ cap then 0 else i + 1

theorem next_lt {cap i : ℕ} (h : i < cap) :
  next cap i < cap
  := by
  unfold next
  split <;> omega

/-- An empty ring; the slots hold whatever is in `junk`. -/
def empty (cap : ℕ) (h : 0 < cap) (junk : ℕ → α) : RingBuffer α :=
  ⟨cap, 0, 0, junk, h, h⟩

/-- Puts an element in the slot at the tail. -/
def put (r : RingBuffer α) (a : α) : RingBuffer α where
  cap := r.cap
  head := r.head
  tail := next r.cap r.tail
  slots := Function.update r.slots r.tail a
  head_lt := r.head_lt
  tail_lt := next_lt r.tail_lt

/-- Moves the elements of a full ring to the front of a larger array. -/
def expand (r : RingBuffer α) (cap : ℕ) (h : r.cap < cap) : RingBuffer α where
  cap := cap
  head := 0
  tail := r.cap
  slots i := r.slots ((r.head + i) % r.cap)
  head_lt := Nat.zero_lt_of_lt h
  tail_lt := h

/-- Appends an element, and moves to an array of `cap` slots if that makes the ring full. -/
def push (r : RingBuffer α) (a : α) (cap : ℕ) (h : r.cap < cap) : RingBuffer α :=
  let r' := r.put a
  if r'.head = r'.tail then r'.expand cap h else r'

/-- Takes the first element out. -/
def pop (r : RingBuffer α) : Option (α × RingBuffer α) :=
  if r.head = r.tail then none
  else some (r.slots r.head, { r with head := next r.cap r.head, head_lt := next_lt r.head_lt })

/-! ### The queue a ring stands for -/

/-- The number of elements. -/
def size (r : RingBuffer α) : ℕ :=
  if r.head ≤ r.tail then r.tail - r.head else r.tail + r.cap - r.head

/-- The slot of the element number `i`. -/
def index (r : RingBuffer α) (i : ℕ) : ℕ :=
  if r.head + i < r.cap then r.head + i else r.head + i - r.cap

/-- The elements, oldest first. -/
def contents (r : RingBuffer α) : List α :=
  (List.range r.size).map fun i => r.slots (r.index i)

theorem index_eq_mod (r : RingBuffer α) {i : ℕ} (h : i < r.cap) :
  (r.head + i) % r.cap = r.index i
  := by
  have hhead := r.head_lt
  unfold index
  split
  · next hlt => exact Nat.mod_eq_of_lt hlt
  · next hle =>
      rw [Nat.mod_eq_sub_mod (Nat.le_of_not_lt hle)]
      apply Nat.mod_eq_of_lt
      omega

theorem size_lt (r : RingBuffer α) :
  r.size < r.cap
  := by
  have hhead := r.head_lt
  have htail := r.tail_lt
  unfold size
  split <;> omega

@[simp]
theorem contents_empty (cap : ℕ) (h : 0 < cap) (junk : ℕ → α) :
  (empty cap h junk).contents = []
  := rfl

theorem length_contents (r : RingBuffer α) :
  r.contents.length = r.size
  := by rw [contents, List.length_map, List.length_range]

theorem contents_eq_nil {r : RingBuffer α} :
  r.contents = [] ↔ r.head = r.tail
  := by
  have hhead := r.head_lt
  have htail := r.tail_lt
  rw [← List.length_eq_zero_iff, length_contents, size]
  split <;> omega

/-- The elements below the tail are in the slots they were in, and the one at the tail comes last. -/
theorem map_put (r : RingBuffer α) (a : α) :
  (List.range (r.size + 1)).map (fun i => (r.put a).slots (r.index i)) = r.contents ++ [a]
  := by
  have hhead := r.head_lt
  have htail := r.tail_lt
  rw [List.range_succ, List.map_append, contents]
  congr 1
  · apply List.map_congr_left
    intro i hi
    rw [List.mem_range] at hi
    apply Function.update_of_ne
    unfold size at hi
    unfold index
    split at hi <;> split <;> omega
  · have hlast : r.index r.size = r.tail := by
      unfold index size
      split <;> split <;> omega
    rw [List.map_singleton, hlast]
    congr 1
    exact Function.update_self _ _ _

/-- A new element comes last. -/
theorem contents_push (r : RingBuffer α) (a : α) (cap : ℕ) (h : r.cap < cap) :
  (r.push a cap h).contents = r.contents ++ [a]
  := by
  have hhead := r.head_lt
  have htail := r.tail_lt
  unfold push
  dsimp only
  rw [← map_put]
  split
  · next hfull =>
      -- the ring was one short of full
      have hsize : r.size + 1 = r.cap := by
        change r.head = next r.cap r.tail at hfull
        unfold next at hfull
        unfold size
        split at hfull <;> split <;> omega
      have hsize' : ((r.put a).expand cap h).size = r.size + 1 := hsize.symm
      rw [contents, hsize']
      apply List.map_congr_left
      intro i hi
      rw [List.mem_range] at hi
      have hindex : ((r.put a).expand cap h).index i = i := by
        unfold index expand
        dsimp only
        rw [if_pos (by omega), Nat.zero_add]
      rw [hindex]
      change (r.put a).slots ((r.head + i) % r.cap) = _
      rw [r.index_eq_mod (by omega)]
  · next hroom =>
      have hsize : (r.put a).size = r.size + 1 := by
        change ¬ r.head = next r.cap r.tail at hroom
        change (if r.head ≤ next r.cap r.tail then next r.cap r.tail - r.head
          else next r.cap r.tail + r.cap - r.head) = r.size + 1
        unfold next at hroom ⊢
        unfold size
        split_ifs at hroom ⊢ <;> omega
      rw [contents, hsize]
      rfl

theorem pop_eq_none {r : RingBuffer α} :
  r.pop = none ↔ r.contents = []
  := by
  rw [contents_eq_nil, pop]
  split
  · next h => exact iff_of_true rfl h
  · next h => exact iff_of_false nofun h

/-- What is taken out is the first element. -/
theorem contents_pop {r r' : RingBuffer α} {a : α} (h : r.pop = some (a, r')) :
  r.contents = a :: r'.contents
  := by
  have hhead := r.head_lt
  have htail := r.tail_lt
  unfold pop at h
  split at h
  · cases h
  · next hne =>
      obtain ⟨rfl, rfl⟩ := Prod.mk.inj (Option.some.inj h)
      let r' : RingBuffer α := { r with head := next r.cap r.head, head_lt := next_lt r.head_lt }
      have hsize : r.size = r'.size + 1 := by
        change r.size = (if next r.cap r.head ≤ r.tail then r.tail - next r.cap r.head
          else r.tail + r.cap - next r.cap r.head) + 1
        unfold size next
        split <;> split <;> split <;> omega
      have hzero : r.index 0 = r.head := by
        unfold index
        split <;> omega
      change _ = _ :: r'.contents
      rw [contents, hsize, List.range_succ_eq_map, List.map_cons, List.map_map, hzero]
      congr 1
      apply List.map_congr_left
      intro i hi
      rw [List.mem_range] at hi
      have hsize' := r'.size_lt
      have hindex : r.index (i + 1) = r'.index i := by
        change r.index (i + 1) = if next r.cap r.head + i < r.cap then next r.cap r.head + i
          else next r.cap r.head + i - r.cap
        have hcap : r'.cap = r.cap := rfl
        unfold index next
        split <;> split <;> split <;> omega
      exact congrArg r.slots hindex

end RingBuffer
