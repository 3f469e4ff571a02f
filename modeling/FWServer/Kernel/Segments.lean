import Mathlib.Algebra.GroupWithZero.Nat
import Mathlib.Data.List.Basic
import Mathlib.Data.Nat.Notation

/-!
# Segments of a stream

A stream is made of segments, one after another, and arrives in pieces that end anywhere.  The segments that
have arrived are those of which no element is missing: `arrived len n` are those when `n` elements of the
stream have arrived.  A reader that takes a segment as soon as it is there has taken these: by
`arrived_of_taken` it is enough that the next segment is longer than what is left.
-/

universe u

namespace Segments

variable {ι : Type u} {len : ι → ℕ} {n : ℕ} {s : ι} {ss done rest : List ι}

/-- The length of some segments. -/
def total (len : ι → ℕ) (ss : List ι) : ℕ :=
  (ss.map len).sum

/-- The segments that have arrived whole when `n` elements of the stream have arrived. -/
def arrived (len : ι → ℕ) : ℕ → List ι → List ι
  | _, [] => []
  | n, s :: ss => if len s ≤ n then s :: arrived len (n - len s) ss else []

@[simp]
theorem total_nil :
  total len [] = 0
  := rfl

@[simp]
theorem total_cons :
  total len (s :: ss) = len s + total len ss
  := by
  unfold total
  rw [List.map_cons, List.sum_cons]

theorem total_append (ss ss' : List ι) :
  total len (ss ++ ss') = total len ss + total len ss'
  := by
  unfold total
  rw [List.map_append, List.sum_append]

@[simp]
theorem arrived_nil (n : ℕ) :
  arrived len n [] = []
  := by cases n <;> rfl

theorem arrived_cons (h : len s ≤ n) :
  arrived len n (s :: ss) = s :: arrived len (n - len s) ss
  := by rw [arrived, if_pos h]

/-- Nothing arrives before the first segment. -/
theorem arrived_of_lt (h : n < len s) :
  arrived len n (s :: ss) = []
  := by rw [arrived, if_neg (Nat.not_le.mpr h)]

/-- What has arrived is followed by what arrives of the rest. -/
theorem arrived_append (done rest : List ι) (n : ℕ) :
  arrived len (total len done + n) (done ++ rest) = done ++ arrived len n rest
  := by
  induction done with
  | nil => rw [total_nil, Nat.zero_add, List.nil_append, List.nil_append]
  | cons s done ih =>
      have hle : len s ≤ total len (s :: done) + n := by
        rw [total_cons, Nat.add_assoc]
        exact Nat.le_add_right _ _
      have hsub : total len (s :: done) + n - len s = total len done + n := by
        rw [total_cons, Nat.add_assoc, Nat.add_sub_cancel_left]
      rw [List.cons_append, arrived_cons hle, hsub, ih, List.cons_append]

/-- Of a stream whose next segment is longer than what is left, everything before that has arrived. -/
theorem arrived_of_taken (h : arrived len n rest = []) :
  arrived len (total len done + n) (done ++ rest) = done
  := by rw [arrived_append, h, List.append_nil]

end Segments
