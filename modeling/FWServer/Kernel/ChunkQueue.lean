import Mathlib.Data.List.Basic
import Mathlib.Data.Nat.Notation

/-!
# Queues of chunks

A `ChunkQueue` keeps a stream in the chunks in which it has arrived.  It is read from the front, any number of
elements at a time: `offset` elements of the first chunk have been read already, and `size` elements of the
stream are left.

`ChunkQueue.contents` is the stream that is left, `contents_push` says that a chunk is appended, and
`read_fst` and `contents_read` that reading splits the stream, wherever the chunks end.
-/

universe u

/-- Chunks of a stream, of which `offset` elements have been read. -/
structure ChunkQueue (α : Type u) where
  chunks : List (List α)
  offset : ℕ
  size : ℕ
  offset_le : offset ≤ (chunks.headD []).length
  size_eq : offset + size = chunks.flatten.length

namespace ChunkQueue

variable {α : Type u}

/-- No chunk has arrived. -/
def empty : ChunkQueue α where
  chunks := []
  offset := 0
  size := 0
  offset_le := Nat.le_refl 0
  size_eq := rfl

/-- The stream that is left. -/
def contents (q : ChunkQueue α) : List α :=
  q.chunks.flatten.drop q.offset

theorem length_contents (q : ChunkQueue α) :
  q.contents.length = q.size
  := by
  rw [contents, List.length_drop, ← q.size_eq, Nat.add_sub_cancel_left]

/-- What has been read of the first chunk is a part of all chunks. -/
theorem length_headD_le (chunks : List (List α)) :
  (chunks.headD []).length ≤ chunks.flatten.length
  := by
  cases chunks with
  | nil => exact Nat.le_refl 0
  | cons c cs =>
      rw [List.flatten_cons, List.length_append]
      exact Nat.le_add_right _ _

/-- A chunk arrives. -/
def push (q : ChunkQueue α) (data : List α) : ChunkQueue α where
  chunks := q.chunks ++ [data]
  offset := q.offset
  size := q.size + data.length
  offset_le := by
    apply Nat.le_trans q.offset_le
    cases q.chunks with
    | nil => exact Nat.zero_le _
    | cons c cs => exact Nat.le_refl _
  size_eq := by
    rw [List.flatten_append, List.flatten_singleton, List.length_append, ← q.size_eq, Nat.add_assoc]

@[simp]
theorem contents_push (q : ChunkQueue α) (data : List α) :
  (q.push data).contents = q.contents ++ data
  := by
  unfold contents push
  rw [List.flatten_append, List.flatten_singleton]
  apply List.drop_append_of_le_length
  exact Nat.le_trans q.offset_le (length_headD_le q.chunks)

/-- Copies `sz` elements, chunk by chunk, and gives back the chunks that have been read; what is copied, the
chunks that are left and how much of the first has been read. -/
def copy : List (List α) → ℕ → ℕ → List α × List (List α) × ℕ
  | [], offset, _ => ([], [], offset)
  | current :: rest, offset, sz =>
      let bsz := current.length - offset
      if bsz > sz then ((current.drop offset).take sz, current :: rest, offset + sz)
      else if bsz = sz then ((current.drop offset).take sz, rest, 0)
      else
        let (xs, chunks, offset') := copy rest 0 (sz - bsz)
        (current.drop offset ++ xs, chunks, offset')

theorem copy_fst {chunks : List (List α)} {offset sz : ℕ} (h : offset ≤ (chunks.headD []).length) :
  (copy chunks offset sz).1 = (chunks.flatten.drop offset).take sz
  := by
  induction chunks generalizing offset sz with
  | nil =>
      rw [List.flatten_nil, List.drop_nil, List.take_nil]
      rfl
  | cons current rest ih =>
      have h : offset ≤ current.length := h
      rw [copy, List.flatten_cons, List.drop_append_of_le_length h, List.take_append,
        List.length_drop]
      split_ifs with hlt heq
      · rw [Nat.sub_eq_zero_of_le (Nat.le_of_lt hlt), List.take_zero, List.append_nil]
      · rw [heq, Nat.sub_self, List.take_zero, List.append_nil]
      · have hle : (current.drop offset).length ≤ sz := by
          rw [List.length_drop]
          omega
        have hrest := @ih 0 (sz - (current.length - offset)) (Nat.zero_le _)
        rw [List.take_of_length_le hle, ← List.drop_zero (l := rest.flatten), ← hrest]

/-- The chunks that are left hold what comes after that. -/
theorem copy_snd {chunks : List (List α)} {offset sz : ℕ} (h : offset ≤ (chunks.headD []).length)
    (hsz : offset + sz ≤ chunks.flatten.length) :
  (copy chunks offset sz).2.2 ≤ ((copy chunks offset sz).2.1.headD []).length ∧
    (copy chunks offset sz).2.1.flatten.drop (copy chunks offset sz).2.2 =
      chunks.flatten.drop (offset + sz)
  := by
  induction chunks generalizing offset sz with
  | nil =>
      use h
      rw [List.flatten_nil, List.drop_nil]
      exact List.drop_nil
  | cons current rest ih =>
      have h : offset ≤ current.length := h
      rw [List.flatten_cons, List.length_append] at hsz
      rw [copy, List.flatten_cons]
      split_ifs with hlt heq
      · constructor
        · change offset + sz ≤ current.length
          omega
        · rw [List.flatten_cons]
      · constructor
        · exact Nat.zero_le _
        · have hend : offset + sz = current.length := by omega
          rw [hend, List.drop_left]
          rfl
      · have hrest : 0 + (sz - (current.length - offset)) ≤ rest.flatten.length := by omega
        obtain ⟨hle, hdrop⟩ := ih (Nat.zero_le _) hrest
        use hle
        have hend : offset + sz = current.length + (sz - (current.length - offset)) := by omega
        rw [hend, List.drop_length_add_append]
        rw [Nat.zero_add] at hdrop
        exact hdrop

/-- When no chunk is empty, the first of the chunks that are left has not been read to its end. -/
theorem copy_lt {chunks : List (List α)} (hne : [] ∉ chunks) (offset sz : ℕ) :
  (copy chunks offset sz).2.1 = [] ∨
    (copy chunks offset sz).2.2 < ((copy chunks offset sz).2.1.headD []).length
  := by
  induction chunks generalizing offset sz with
  | nil => exact .inl rfl
  | cons current rest ih =>
      rw [List.mem_cons, not_or] at hne
      rw [copy]
      split_ifs with hlt heq
      · right
        change offset + sz < current.length
        omega
      · cases rest with
        | nil => exact .inl rfl
        | cons c rest =>
            right
            apply List.length_pos_of_ne_nil
            rintro rfl
            apply hne.2 List.mem_cons_self
      · apply ih hne.2

/-- Reads `sz` elements. -/
def read (q : ChunkQueue α) (sz : ℕ) (h : sz ≤ q.size) : List α × ChunkQueue α :=
  have hsz : q.offset + sz ≤ q.chunks.flatten.length := by
    have hsize := q.size_eq
    omega
  ((copy q.chunks q.offset sz).1, {
    chunks := (copy q.chunks q.offset sz).2.1
    offset := (copy q.chunks q.offset sz).2.2
    size := q.size - sz
    offset_le := (copy_snd q.offset_le hsz).1
    size_eq := by
      obtain ⟨hle, hdrop⟩ := copy_snd q.offset_le hsz
      have hle := Nat.le_trans hle (length_headD_le _)
      have hlength := congrArg List.length hdrop
      rw [List.length_drop, List.length_drop] at hlength
      have hsize := q.size_eq
      omega })

@[simp]
theorem size_read (q : ChunkQueue α) (sz : ℕ) (h : sz ≤ q.size) :
  (q.read sz h).2.size = q.size - sz
  := rfl

theorem read_fst (q : ChunkQueue α) (sz : ℕ) (h : sz ≤ q.size) :
  (q.read sz h).1 = q.contents.take sz
  := copy_fst q.offset_le

theorem contents_read (q : ChunkQueue α) (sz : ℕ) (h : sz ≤ q.size) :
  (q.read sz h).2.contents = q.contents.drop sz
  := by
  have hsize := q.size_eq
  have hsz : q.offset + sz ≤ q.chunks.flatten.length := by omega
  rw [contents, contents, List.drop_drop]
  exact (copy_snd q.offset_le hsz).2

end ChunkQueue
