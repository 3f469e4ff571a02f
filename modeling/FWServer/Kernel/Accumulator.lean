import Mathlib.Data.List.Basic

/-!
# Accumulators

An accumulator takes elements one by one.  It keeps them until there are enough of them, and then gives out
something for them; what it keeps is a list of elements, which may be given to it again.

An accumulator is *faithful* when after each element it keeps what it kept and the element, or what it kept, or
nothing.  Then it does not matter how its input is divided: `pieces_eq` says that what it gives out for the
pieces, each put after what was kept of those before, is what it gives out for the whole.
-/

universe u v

namespace Accumulator

variable {α : Type u} {β : Type v} (step : List α → α → List α × List β)

/-- What is kept and what is given out after some elements. -/
def run : List α → List α → List α × List β
  | kept, [] => (kept, [])
  | kept, a :: as => ((run (step kept a).1 as).1, (step kept a).2 ++ (run (step kept a).1 as).2)

/-- What is given out for pieces, each after what is kept of those before, and `finish` at the end. -/
def pieces (finish : List α → List β) (kept : List α) : List (List α) → List β
  | [] => (run step [] kept).2 ++ finish (run step [] kept).1
  | piece :: rest =>
      (run step [] (kept ++ piece)).2 ++ pieces finish (run step [] (kept ++ piece)).1 rest

/-- After each element an accumulator keeps more, the same, or nothing. -/
def Faithful : Prop :=
  ∀ kept a, step kept a = (kept ++ [a], []) ∨ step kept a = (kept, []) ∨ (step kept a).1 = []

variable {step}

theorem run_append (kept as bs : List α) :
  run step kept (as ++ bs) =
    ((run step (run step kept as).1 bs).1, (run step kept as).2 ++ (run step (run step kept as).1 bs).2)
  := by
  induction as generalizing kept with
  | nil => rfl
  | cons a as ih =>
      rw [List.cons_append, run, ih, run, List.append_assoc]

theorem run_singleton (kept : List α) (a : α) :
  run step kept [a] = step kept a
  := by
  rw [run, run, List.append_nil]

/-- What is kept is kept when it is given again. -/
theorem Faithful.rerun (h : Faithful step) {kept : List α} (hkept : run step [] kept = (kept, []))
    (as : List α) :
  run step [] (run step kept as).1 = ((run step kept as).1, [])
  := by
  induction as generalizing kept with
  | nil => exact hkept
  | cons a as ih =>
      rw [run]
      apply ih
      rcases h kept a with hmore | hsame | hnone
      · rw [hmore, run_append, hkept, run_singleton, hmore]
        rfl
      · rw [hsame]
        exact hkept
      · rw [hnone]
        rfl

/-- Pieces give out what the whole does. -/
theorem Faithful.pieces_eq (h : Faithful step) (finish : List α → List β) (kept : List α)
    (ps : List (List α)) :
  pieces step finish kept ps =
    (run step [] (kept ++ ps.flatten)).2 ++ finish (run step [] (kept ++ ps.flatten)).1
  := by
  induction ps generalizing kept with
  | nil =>
      rw [List.flatten_nil, List.append_nil]
      rfl
  | cons p ps ih =>
      have hkept : run step [] (run step [] (kept ++ p)).1 = ((run step [] (kept ++ p)).1, []) :=
        h.rerun rfl _
      have hrest : run step [] ((run step [] (kept ++ p)).1 ++ ps.flatten) =
          run step (run step [] (kept ++ p)).1 ps.flatten := by
        rw [run_append, hkept]
        rfl
      have hwhole : run step [] (kept ++ (p ++ ps.flatten)) =
          ((run step (run step [] (kept ++ p)).1 ps.flatten).1,
            (run step [] (kept ++ p)).2 ++ (run step (run step [] (kept ++ p)).1 ps.flatten).2) := by
        rw [← List.append_assoc, run_append]
      rw [pieces, ih, hrest, List.flatten_cons, hwhole, List.append_assoc]

end Accumulator
