import Mathlib.Data.Int.Notation
import Mathlib.Data.Nat.Notation
import Mathlib.Logic.Function.Basic

/-!
# Timers

`util/timer.lua`: timers with integer ids, each with a count that `rmtimer` lowers, and the
callbacks `skynet.timeout` has been given.
-/

namespace Timer

/-- `max_int` -/
def maxInt : ℤ := 2147483600

/-- The table `g_timer` of counts by id, the last id handed out, and the callbacks pending:
the id, the delay in hundredths of a second and what is called. -/
structure State (φ : Type) where
  tab : ℤ → Option ℤ
  timerId : ℤ
  pending : List (ℤ × ℤ × φ)

variable {φ : Type}

/-- The first free id among the `n` ids from `i` on. -/
def firstFree (tab : ℤ → Option ℤ) : ℕ → ℤ → Option ℤ
  | 0, _ => none
  | n + 1, i => if (tab i).isNone then some i else firstFree tab n (i + 1)

/-- The id for a new timer: the next one, or else the first free one after it, or else the
first free one from 1 on. -/
def genTimerId (s : State φ) : Option ℤ :=
  let t := s.timerId + 1
  if (s.tab t).isNone then some t
  else
    (firstFree s.tab (maxInt - t).toNat (t + 1)).orElse fun _ => firstFree s.tab t.toNat 1

/-- `g_timer.addtimer`: hands out an id and has `func` called after `delaySec` seconds. -/
def addtimer (delaySec : ℤ) (func : φ) (s : State φ) : Option ℤ × State φ :=
  match genTimerId s with
  | none => (none, s)
  | some tid =>
      (some tid,
        { tab := Function.update s.tab tid (some 1)
          timerId := tid
          pending := (tid, max 1 (delaySec * 100), func) :: s.pending })

/-- `g_timer.rmtimer` -/
def rmtimer (tid : ℤ) (s : State φ) : State φ :=
  match s.tab tid with
  | none => s
  | some n =>
      { s with tab := Function.update s.tab tid (if n - 1 ≤ 0 then none else some (n - 1)) }

end Timer
