import FWServer.Skynet.Timer
import Mathlib.Data.List.Induction
import Mathlib.Data.Nat.Bitwise
import Mathlib.Tactic.IntervalCases
import Mathlib.Tactic.SplitIfs

/-!
# The timing wheel keeps its times

`place` says in which list a node belongs, from the time and the time at which it expires.  A node that lies
ahead changes its place only when it is in the list that is moved, and then to a lower level, where nothing
can stand at that moment (`moves`).  So every list consists of the pending nodes of its place, in the order in
which they were added, and the list of the current tick of those that are due.
-/

namespace Skynet

namespace Timer

/-! ### Places -/

/-- The list for a node, said with divisions. -/
def place (currentTime time : ℕ) : Slot :=
  if time / 2 ^ 8 = currentTime / 2 ^ 8 then .near (time % 2 ^ 8)
  else if time / 2 ^ 14 = currentTime / 2 ^ 14 then .t 0 (time / 2 ^ 8 % 2 ^ 6)
  else if time / 2 ^ 20 = currentTime / 2 ^ 20 then .t 1 (time / 2 ^ 14 % 2 ^ 6)
  else if time / 2 ^ 26 = currentTime / 2 ^ 26 then .t 2 (time / 2 ^ 20 % 2 ^ 6)
  else .t 3 (time / 2 ^ 26 % 2 ^ 6)

/-- The list moved when the time becomes `ct`, said with divisions. -/
def moved (ct : ℕ) : Option Slot :=
  if ct = 0 then some (.t 3 0)
  else if ct % 2 ^ 8 ≠ 0 then none
  else if ct / 2 ^ 8 % 2 ^ 6 ≠ 0 then some (.t 0 (ct / 2 ^ 8 % 2 ^ 6))
  else if ct / 2 ^ 14 % 2 ^ 6 ≠ 0 then some (.t 1 (ct / 2 ^ 14 % 2 ^ 6))
  else if ct / 2 ^ 20 % 2 ^ 6 ≠ 0 then some (.t 2 (ct / 2 ^ 20 % 2 ^ 6))
  else some (.t 3 (ct / 2 ^ 26 % 2 ^ 6))

/-- Numbers agree above the lowest `n` bits when these are all set. -/
theorem or_mask_eq_iff (a b n : ℕ) :
  a ||| (2 ^ n - 1) = b ||| (2 ^ n - 1) ↔ a / 2 ^ n = b / 2 ^ n
  := by
  have hdiv : ∀ x : ℕ, (x ||| (2 ^ n - 1)) / 2 ^ n = x / 2 ^ n := by
    intro x
    rw [Nat.or_div_two_pow, Nat.div_eq_of_lt (Nat.sub_lt (Nat.two_pow_pos n) Nat.one_pos),
      Nat.or_zero]
  have hmod : ∀ x : ℕ, (x ||| (2 ^ n - 1)) % 2 ^ n = 2 ^ n - 1 := by
    intro x
    apply Nat.eq_of_testBit_eq
    intro i
    simp only [Nat.testBit_mod_two_pow, Nat.testBit_or, Nat.testBit_two_pow_sub_one]
    by_cases h : i < n <;> simp [h]
  constructor
  · intro h
    rw [← hdiv a, ← hdiv b, h]
  · intro h
    rw [← Nat.div_add_mod (a ||| (2 ^ n - 1)) (2 ^ n), ← Nat.div_add_mod (b ||| (2 ^ n - 1)) (2 ^ n),
      hdiv, hdiv, hmod, hmod, h]

theorem slotOf_eq_place (currentTime time : ℕ) :
  slotOf currentTime time = place currentTime time
  := by
  have hor := or_mask_eq_iff time currentTime
  have hnear : time ||| TIME_NEAR_MASK = currentTime ||| TIME_NEAR_MASK
      ↔ time / 2 ^ 8 = currentTime / 2 ^ 8 := hor 8
  have hzero : time ||| (TIME_NEAR <<< TIME_LEVEL_SHIFT - 1)
      = currentTime ||| (TIME_NEAR <<< TIME_LEVEL_SHIFT - 1)
      ↔ time / 2 ^ 14 = currentTime / 2 ^ 14 := hor 14
  have hone : time ||| (TIME_NEAR <<< TIME_LEVEL_SHIFT <<< TIME_LEVEL_SHIFT - 1)
      = currentTime ||| (TIME_NEAR <<< TIME_LEVEL_SHIFT <<< TIME_LEVEL_SHIFT - 1)
      ↔ time / 2 ^ 20 = currentTime / 2 ^ 20 := hor 20
  have htwo : time ||| (TIME_NEAR <<< TIME_LEVEL_SHIFT <<< TIME_LEVEL_SHIFT <<< TIME_LEVEL_SHIFT - 1)
      = currentTime ||| (TIME_NEAR <<< TIME_LEVEL_SHIFT <<< TIME_LEVEL_SHIFT <<< TIME_LEVEL_SHIFT - 1)
      ↔ time / 2 ^ 26 = currentTime / 2 ^ 26 := hor 26
  have hidx : ∀ k, (time >>> k) &&& TIME_LEVEL_MASK = time / 2 ^ k % 2 ^ 6 := by
    intro k
    rw [Nat.shiftRight_eq_div_pow]
    exact Nat.and_two_pow_sub_one_eq_mod _ 6
  have hnearIdx : time &&& TIME_NEAR_MASK = time % 2 ^ 8 := Nat.and_two_pow_sub_one_eq_mod _ 8
  unfold slotOf place
  simp only [level, hnear, hzero, hone, htwo, hidx, hnearIdx]
  split_ifs <;> rfl

/-- One turn of the loop over the levels. -/
theorem shifted_succ (ct k n i : ℕ) :
  shifted ct (ct / 2 ^ k) (2 ^ k) (n + 1) i =
    if ct % 2 ^ k = 0 then
      if ct / 2 ^ k % 2 ^ 6 ≠ 0 then some (i, ct / 2 ^ k % 2 ^ 6)
      else shifted ct (ct / 2 ^ (k + 6)) (2 ^ (k + 6)) n (i + 1)
    else none
  := by
  have hmask : ct &&& (2 ^ k - 1) = ct % 2 ^ k := Nat.and_two_pow_sub_one_eq_mod ct k
  have hidx : ct / 2 ^ k &&& TIME_LEVEL_MASK = ct / 2 ^ k % 2 ^ 6 := Nat.and_two_pow_sub_one_eq_mod _ 6
  have htime : (ct / 2 ^ k) >>> TIME_LEVEL_SHIFT = ct / 2 ^ (k + 6) := by
    rw [Nat.pow_add, ← Nat.div_div_eq_div_mul]
    exact Nat.shiftRight_eq_div_pow _ 6
  have hshift : 2 ^ k <<< TIME_LEVEL_SHIFT = 2 ^ (k + 6) := by
    rw [Nat.pow_add]
    exact Nat.shiftLeft_eq _ 6
  rw [shifted, hmask, hidx, htime, hshift]

/-- The loop over the levels finds the list that is moved. -/
theorem shifted_eq_moved {ct : ℕ} (h : ct ≠ 0) (hct : ct < 2 ^ 32) :
  (shifted ct (ct >>> TIME_NEAR_SHIFT) TIME_NEAR 4 0).map (fun p => Slot.t p.1 p.2) = moved ct
  := by
  have htime : ct >>> TIME_NEAR_SHIFT = ct / 2 ^ 8 := Nat.shiftRight_eq_div_pow ct 8
  have hmask : TIME_NEAR = 2 ^ 8 := rfl
  rw [moved, if_neg h, htime, hmask, shifted_succ]
  by_cases hround : ct % 2 ^ 8 = 0
  · rw [if_pos hround, if_neg (not_not_intro hround)]
    by_cases hzero : ct / 2 ^ 8 % 2 ^ 6 = 0
    · have hround : ct % 2 ^ 14 = 0 := by omega
      rw [if_neg (not_not_intro hzero), if_neg (not_not_intro hzero), shifted_succ, if_pos hround]
      by_cases hone : ct / 2 ^ 14 % 2 ^ 6 = 0
      · have hround : ct % 2 ^ 20 = 0 := by omega
        rw [if_neg (not_not_intro hone), if_neg (not_not_intro hone), shifted_succ, if_pos hround]
        by_cases htwo : ct / 2 ^ 20 % 2 ^ 6 = 0
        · have hround : ct % 2 ^ 26 = 0 := by omega
          have hthree : ct / 2 ^ 26 % 2 ^ 6 ≠ 0 := by omega
          rw [if_neg (not_not_intro htwo), if_neg (not_not_intro htwo), shifted_succ, if_pos hround,
            if_pos hthree]
          rfl
        · rw [if_pos htwo, if_pos htwo]
          rfl
      · rw [if_pos hone, if_pos hone]
        rfl
    · rw [if_pos hzero, if_pos hzero]
      rfl
  · rw [if_neg hround, if_pos hround]
    rfl

/-! ### How places change -/

/-- The ticks from the time `t` to the time `e`. -/
def ahead (t e : ℕ) : ℕ :=
  (e + 2 ^ 32 - t) % 2 ^ 32

/-- The round of 256 ticks, or of the level below `i`, that `x` lies in. -/
def round (i x : ℕ) : ℕ :=
  x / 2 ^ (8 + 6 * i)

theorem round_succ (i x : ℕ) :
  round (i + 1) x = round i x / 2 ^ 6
  := by
  rw [round, round, Nat.div_div_eq_div_mul, ← Nat.pow_add]
  rfl

theorem round_of_lt {i x : ℕ} (hi : 4 ≤ i) (hx : x < 2 ^ 32) :
  round i x = 0
  := by
  apply Nat.div_eq_of_lt
  apply Nat.lt_of_lt_of_le hx
  apply Nat.pow_le_pow_right Nat.two_pos
  omega

/-- A round lies in one of each higher level. -/
theorem round_congr {i j x y : ℕ} (hij : i ≤ j) (h : round i x = round i y) :
  round j x = round j y
  := by
  induction j, hij using Nat.le_induction with
  | base => exact h
  | succ j _ ih => rw [round_succ, round_succ, ih]

/-- A number is told by its round and the place of that in the next one. -/
theorem round_eq {i x y : ℕ} (hround : round (i + 1) x = round (i + 1) y)
    (hmod : round i x % 2 ^ 6 = round i y % 2 ^ 6) :
  round i x = round i y
  := by
  rw [round_succ, round_succ] at hround
  rw [← Nat.div_add_mod (round i x) (2 ^ 6), hround, hmod, Nat.div_add_mod]

section Place

variable {t ct e i : ℕ}

/-- The level of a list is told by the rounds that do not tell the two times apart. -/
theorem rank_place_le (hi : i < 4) :
  (place t e).rank ≤ i ↔ round i e = round i t
  := by
  unfold place round
  interval_cases i <;> split_ifs <;> simp only [Slot.rank] <;> omega

theorem rank_place_le_four (t e : ℕ) :
  (place t e).rank ≤ 4
  := by
  unfold place
  split_ifs <;> simp only [Slot.rank] <;> omega

/-- A list of a level is told by the level and the round. -/
theorem place_eq (hi : i < 4) (idx : ℕ) :
  place t e = .t i idx ↔ (place t e).rank = i + 1 ∧ round i e % 2 ^ 6 = idx
  := by
  unfold place round
  interval_cases i <;> split_ifs <;> simp [Slot.rank]

/-- The rounds in which a time lies together with the one at which a node expires tell its place. -/
theorem place_congr (h : ∀ i < 4, round i e = round i ct ↔ round i e = round i t) :
  place ct e = place t e
  := by
  have h8 : e / 2 ^ 8 = ct / 2 ^ 8 ↔ e / 2 ^ 8 = t / 2 ^ 8 := h 0 (by decide)
  have h14 : e / 2 ^ 14 = ct / 2 ^ 14 ↔ e / 2 ^ 14 = t / 2 ^ 14 := h 1 (by decide)
  have h20 : e / 2 ^ 20 = ct / 2 ^ 20 ↔ e / 2 ^ 20 = t / 2 ^ 20 := h 2 (by decide)
  have h26 : e / 2 ^ 26 = ct / 2 ^ 26 ↔ e / 2 ^ 26 = t / 2 ^ 26 := h 3 (by decide)
  simp only [place, h8, h14, h20, h26]

/-- If a round ends with `t`, nothing that lies ahead is in it. -/
theorem next_round (hlt : 0 < ahead t e) (hle : ahead t e < 2 ^ 31) (hi : i < 4)
    (h : (t + 1) % 2 ^ (8 + 6 * i) = 0) :
  round i e ≠ round i t
  := by
  unfold ahead at hlt hle
  unfold round
  interval_cases i <;> omega

/-- Unless a round begins with `t + 1`, it is in the round of `t`. -/
theorem same_round (h : (t + 1) % 2 ^ (8 + 6 * i) ≠ 0) :
  round i (t + 1) = round i t
  := by
  rw [round, Nat.succ_div, if_neg (mt Nat.mod_eq_zero_of_dvd h), Nat.add_zero]
  rfl

/-- What becomes of the place of a node when the time has become `ct`: only if it is the list moved, it is
another, on a lower level. -/
def Moves (t ct e : ℕ) : Option Slot → Prop
  | none => place ct e = place t e
  | some c => c.rank ≤ (place t e).rank ∧
      (place t e = c → (place ct e).rank < c.rank) ∧ (place t e ≠ c → place ct e = place t e)

/-- The step to a new round of the level below `i`. -/
theorem moves_round (hi : i < 4) (ht : t < 2 ^ 32) (he : e < 2 ^ 32) (hnext : round i e ≠ round i t)
    (hsame : ∀ j, i < j → round j ct = round j t) :
  Moves t ct e (some (.t i (round i ct % 2 ^ 6)))
  := by
  have hwithin : (place t e).rank ≤ i + 1 ↔ round (i + 1) e = round (i + 1) t := by
    rcases Nat.lt_or_eq_of_le (Nat.succ_le_of_lt hi) with hlt | heq
    · exact rank_place_le hlt
    · have hi' : i + 1 = 4 := heq
      rw [hi', round_of_lt (Nat.le_refl 4) he, round_of_lt (Nat.le_refl 4) ht]
      exact iff_of_true (rank_place_le_four t e) rfl
  have hrank : i + 1 ≤ (place t e).rank := Nat.not_le.mp (mt (rank_place_le hi).mp hnext)
  refine ⟨hrank, ?_, ?_⟩
  · intro hc
    obtain ⟨hrank, hidx⟩ := (place_eq hi _).mp hc
    apply Nat.lt_succ_of_le
    apply (rank_place_le hi).mpr
    apply round_eq _ hidx
    rw [hwithin.mp (Nat.le_of_eq hrank), hsame (i + 1) (Nat.lt_succ_self i)]
  · intro hc
    apply place_congr
    intro j _
    rcases Nat.lt_or_ge i j with hlt | hle
    · rw [hsame j hlt]
    · apply iff_of_false
      · intro hround
        have hround' := round_congr hle hround
        have hrank' := hwithin.mpr <| by
          rw [round_congr (Nat.le_succ i) hround', hsame (i + 1) (Nat.lt_succ_self i)]
        apply hc
        apply (place_eq hi _).mpr
        exact ⟨Nat.le_antisymm hrank' hrank, congrArg (· % 2 ^ 6) hround'⟩
      · intro hround
        exact hnext (round_congr hle hround)

/-- The step to a tick in the same round. -/
theorem moves_of_same (h : ∀ j, round j ct = round j t) :
  Moves t ct e none
  := by
  apply place_congr
  intro i _
  rw [h i]

/-- The list that is moved is the first that tells the round of the new tick from the one before. -/
theorem moved_eq (ht : t + 1 < 2 ^ 32) :
  moved (t + 1) = none ∧ (t + 1) % 2 ^ 8 ≠ 0 ∨
    ∃ i < 4, moved (t + 1) = some (.t i (round i (t + 1) % 2 ^ 6)) ∧ (t + 1) % 2 ^ (8 + 6 * i) = 0 ∧
      (t + 1) % 2 ^ (8 + 6 * (i + 1)) ≠ 0
  := by
  unfold moved
  rw [if_neg (Nat.succ_ne_zero t)]
  split_ifs with h8 h14 h20 h26
  · exact .inl ⟨rfl, h8⟩
  · exact .inr ⟨0, by decide, rfl, by omega, by omega⟩
  · exact .inr ⟨1, by decide, rfl, by omega, by omega⟩
  · exact .inr ⟨2, by decide, rfl, by omega, by omega⟩
  · exact .inr ⟨3, by decide, rfl, by omega, by omega⟩

/-- The rounds from the level `i` on are those of the tick before. -/
theorem round_of_ge {j : ℕ} (h : (t + 1) % 2 ^ (8 + 6 * i) ≠ 0) (hij : i ≤ j) :
  round j (t + 1) = round j t
  := round_congr hij (same_round h)

/-- As the time goes on by a tick, only what is in the list moved changes its place. -/
theorem moves (ht : t < 2 ^ 32) (he : e < 2 ^ 32) (hlt : 0 < ahead t e) (hle : ahead t e < 2 ^ 31) :
  Moves t (uint32 (t + 1)) e (moved (uint32 (t + 1)))
  := by
  have hle' : t + 1 ≤ 2 ^ 32 := ht
  rcases Nat.lt_or_eq_of_le hle' with ht' | ht'
  · have hct : uint32 (t + 1) = t + 1 := Nat.mod_eq_of_lt ht'
    rw [hct]
    obtain ⟨hnone, h8⟩ | ⟨i, hi, hsome, hbegin, hnot⟩ := moved_eq ht'
    · rw [hnone]
      apply moves_of_same
      intro j
      exact round_of_ge (i := 0) h8 (Nat.zero_le j)
    · rw [hsome]
      apply moves_round hi ht he (next_round hlt hle hi hbegin)
      intro j hij
      exact round_of_ge hnot hij
  · have hct : uint32 (t + 1) = 0 := by
      rw [uint32, ht', Nat.mod_self]
    rw [hct]
    have hmod : (t + 1) % 2 ^ (8 + 6 * 3) = 0 := by omega
    have hzero : round 3 0 % 2 ^ 6 = 0 := rfl
    have hmoves : Moves t 0 e (some (.t 3 (round 3 0 % 2 ^ 6))) := by
      apply moves_round (by decide) ht he (next_round hlt hle (by decide) hmod)
      intro j hj
      rw [round_of_lt hj (by decide), round_of_lt hj ht]
    rw [hzero] at hmoves
    exact hmoves

end Place

/-! ### What the operations do -/

/-- The node of an event that is due at a tick, the ticks being counted without end. -/
def node (p : ℕ × TimerEvent) : TimerNode where
  expire := uint32 p.1
  event := p.2

/-- The time is that of the tick `now`, and the nodes of the pending events are in their places. -/
structure Placed (now : ℕ) (pending : List (ℕ × TimerEvent)) (T : Timer) : Prop where
  time : T.time = uint32 now
  list : Shelved (fun node => slotOf T.time node.expire) (pending.map node) T.list

section Operations

variable {T : Timer} {now : ℕ} {pending : List (ℕ × TimerEvent)}

theorem uint32_lt (n : ℕ) :
  uint32 n < 2 ^ 32
  := Nat.mod_lt _ (Nat.two_pow_pos 32)

theorem ahead_uint32 {due : ℕ} (h : now < due) (h' : due < now + 2 ^ 31) :
  0 < ahead (uint32 now) (uint32 due) ∧ ahead (uint32 now) (uint32 due) < 2 ^ 31
  := by
  unfold ahead uint32
  omega

theorem foldl_addNode (T : Timer) (nodes : List TimerNode) :
  nodes.foldl addNode T
    = { T with list := Shelved.putAll (fun node => slotOf T.time node.expire) T.list nodes }
  := by
  unfold Shelved.putAll
  induction nodes generalizing T with
  | nil => rfl
  | cons node nodes ih => exact ih (T.addNode node)

theorem Placed.add (h : Placed now pending T) (event : TimerEvent) (time : Delay) :
  Placed now (pending ++ [(now + time.val, event)]) (T.add event time)
  := by
  have hexpire : uint32 (time.val + T.time) = uint32 (now + time.val) := by
    rw [h.time, uint32, uint32, uint32]
    omega
  refine ⟨h.time, ?_⟩
  rw [List.map_append, Timer.add, hexpire]
  exact h.list.put_place (node (now + time.val, event))

theorem filter_map_node {keep : TimerNode → Bool} {keep' : ℕ × TimerEvent → Bool}
    (h : ∀ p ∈ pending, keep (node p) = keep' p) :
  (pending.map node).filter keep = (pending.filter keep').map node
  := by
  rw [List.filter_map]
  congr 1
  apply List.filter_congr
  exact h

/-- A node is in the list of the current tick if it expires now. -/
theorem slotOf_eq_near {t e : ℕ} :
  slotOf t e = .near (t &&& TIME_NEAR_MASK) ↔ e = t
  := by
  have hidx : t &&& TIME_NEAR_MASK = t % 2 ^ 8 := Nat.and_two_pow_sub_one_eq_mod _ 8
  rw [slotOf_eq_place, hidx, place]
  constructor
  · intro h
    split_ifs at h with hround
    have hmod := Slot.near.inj h
    omega
  · rintro rfl
    exact if_pos rfl

/-- The nodes taken are those due at the current tick; the others stay. -/
theorem Placed.execute (h : Placed now pending T)
    (hdue : ∀ p ∈ pending, now ≤ p.1 ∧ p.1 < now + 2 ^ 32) :
  T.execute.1 = (pending.filter fun p => p.1 = now).map node ∧
    Placed now (pending.filter fun p => p.1 ≠ now) T.execute.2
  := by
  have hexpire : ∀ p ∈ pending, slotOf T.time (node p).expire = .near (T.time &&& TIME_NEAR_MASK)
      ↔ p.1 = now := by
    intro p hp
    obtain ⟨hle, hlt⟩ := hdue p hp
    have hnode : (node p).expire = p.1 % 2 ^ 32 := rfl
    rw [slotOf_eq_near, h.time, hnode, uint32]
    omega
  constructor
  · have htaken : T.execute.1 = T.list (.near (T.time &&& TIME_NEAR_MASK)) := rfl
    rw [htaken, h.list]
    apply filter_map_node
    intro p hp
    rw [decide_eq_decide]
    exact hexpire p hp
  · refine ⟨h.time, ?_⟩
    rw [← filter_map_node]
    · exact h.list.clear _
    · intro p hp
      rw [decide_eq_decide]
      exact not_congr (hexpire p hp)

/-- The list of a round that begins is distributed over the lists of the levels below. -/
theorem Placed.shift (h : Placed now pending T)
    (hdue : ∀ p ∈ pending, now < p.1 ∧ p.1 < now + 2 ^ 31) :
  Placed (now + 1) pending T.shift
  := by
  have htime : uint32 (T.time + 1) = uint32 (now + 1) := by
    rw [h.time, uint32, uint32, uint32]
    omega
  have hmoves : ∀ a ∈ pending.map node,
      Moves T.time (uint32 (T.time + 1)) a.expire (moved (uint32 (T.time + 1))) := by
    intro a ha
    obtain ⟨p, hp, rfl⟩ := List.mem_map.mp ha
    obtain ⟨hlt, hle⟩ := hdue p hp
    have hahead := ahead_uint32 hlt hle
    rw [h.time]
    exact moves (uint32_lt _) (uint32_lt _) hahead.1 hahead.2
  have hnone : ∀ {T' : Timer}, moved (uint32 (T.time + 1)) = none → T' = { T with time := uint32 (T.time + 1) } →
      Placed (now + 1) pending T' := by
    rintro T' hmoved rfl
    rw [hmoved] at hmoves
    refine ⟨htime, h.list.congr ?_⟩
    intro a ha
    have hsame := hmoves a ha
    rwa [Moves, ← slotOf_eq_place, ← slotOf_eq_place] at hsame
  have hsome : ∀ {i idx : ℕ} {T' : Timer}, moved (uint32 (T.time + 1)) = some (.t i idx) →
      T' = moveList { T with time := uint32 (T.time + 1) } i idx → Placed (now + 1) pending T' := by
    rintro i idx T' hmoved rfl
    rw [hmoved] at hmoves
    rw [moveList, foldl_addNode]
    refine ⟨htime, h.list.reshelve (.t i idx) ?_ ?_⟩
    · intro a ha hc
      obtain ⟨-, -, hstay⟩ := hmoves a ha
      rw [slotOf_eq_place] at hc
      have hsame := hstay hc
      rwa [← slotOf_eq_place, ← slotOf_eq_place] at hsame
    · intro a ha b hb hac hbc hsame
      obtain ⟨-, hdown, -⟩ := hmoves a ha
      obtain ⟨hle, -, -⟩ := hmoves b hb
      rw [slotOf_eq_place] at hac
      rw [slotOf_eq_place, slotOf_eq_place] at hsame
      have hlt := hdown hac
      rw [hsame] at hle
      exact Nat.not_lt.mpr hle hlt
  rw [Timer.shift]
  by_cases hzero : uint32 (T.time + 1) = 0
  · rw [if_pos hzero]
    apply hsome _ rfl
    rw [hzero]
    rfl
  · have hshifted := shifted_eq_moved hzero (uint32_lt _)
    rw [if_neg hzero]
    split
    · next i idx heq =>
        rw [heq] at hshifted
        exact hsome hshifted.symm rfl
    · next heq =>
        rw [heq] at hshifted
        exact hnone hshifted.symm rfl

/-- An update dispatches the nodes that are due at the next tick. -/
theorem Placed.update (h : Placed now pending T)
    (hdue : ∀ p ∈ pending, now < p.1 ∧ p.1 < now + 2 ^ 31) :
  T.update.1 = (pending.filter fun p => p.1 = now + 1).map node ∧
    Placed (now + 1) (pending.filter fun p => p.1 ≠ now + 1) T.update.2
  := by
  obtain ⟨hearly, hexecuted⟩ := h.execute (by
    intro p hp
    have := hdue p hp
    omega)
  have hnone : (pending.filter fun p => p.1 = now) = [] := by
    rw [List.filter_eq_nil_iff]
    intro p hp heq
    rw [decide_eq_true_eq] at heq
    exact absurd heq (Nat.ne_of_gt (hdue p hp).1)
  have hall : (pending.filter fun p => p.1 ≠ now) = pending := by
    rw [List.filter_eq_self]
    intro p hp
    rw [decide_eq_true_eq]
    exact Nat.ne_of_gt (hdue p hp).1
  rw [hall] at hexecuted
  obtain ⟨hnodes, hplaced⟩ := (hexecuted.shift hdue).execute (by
    intro p hp
    have := hdue p hp
    omega)
  have hupdate : T.update = (T.execute.1 ++ T.execute.2.shift.execute.1, T.execute.2.shift.execute.2) := rfl
  rw [hupdate, hearly, hnone]
  exact ⟨hnodes, hplaced⟩

end Operations

/-! ### Runs -/

/-- A call of `timer_add` or of `timer_update`. -/
inductive Op where
  | add (event : TimerEvent) (time : Delay)
  | update

/-- A timer, and the messages pushed by each of its updates so far. -/
structure Run where
  timer : Timer
  dispatched : List (List (ℕ × Message))

def Run.step (r : Run) : Op → Run
  | .add event time => { r with timer := r.timer.add event time }
  | .update =>
      let (nodes, timer) := r.timer.update
      { timer := timer, dispatched := r.dispatched ++ [dispatchList nodes] }

/-- A sequence of calls, from a fresh timer on. -/
def run (ops : List Op) : Run :=
  ops.foldl Run.step ⟨create, []⟩

/-- The number of updates. -/
def ticks : List Op → ℕ
  | [] => 0
  | .add _ _ :: ops => ticks ops
  | .update :: ops => ticks ops + 1

/-- The events added, in order, each with the tick at which it is due: the number of updates before it was
added, which is `now` at first, and its time. -/
def scheduled (now : ℕ) : List Op → List (ℕ × TimerEvent)
  | [] => []
  | .add event time :: ops => (now + time.val, event) :: scheduled now ops
  | .update :: ops => scheduled (now + 1) ops

section Run

theorem ticks_append (ops ops' : List Op) :
  ticks (ops ++ ops') = ticks ops + ticks ops'
  := by
  induction ops with
  | nil => exact (Nat.zero_add _).symm
  | cons op ops ih =>
      cases op with
      | add event time => exact ih
      | update =>
          rw [List.cons_append, ticks, ticks, ih]
          omega

theorem scheduled_append (now : ℕ) (ops ops' : List Op) :
  scheduled now (ops ++ ops') = scheduled now ops ++ scheduled (now + ticks ops) ops'
  := by
  induction ops generalizing now with
  | nil => rfl
  | cons op ops ih =>
      cases op with
      | add event time =>
          rw [List.cons_append, scheduled, scheduled, ih]
          rfl
      | update =>
          rw [List.cons_append, scheduled, scheduled, ih, ticks, Nat.add_assoc now 1, Nat.add_comm 1]

/-- What has been dispatched after `n` updates, if the events are due as in `events`. -/
def dispatchedBy (events : List (ℕ × TimerEvent)) (n : ℕ) : List (List (ℕ × Message)) :=
  (List.range n).map fun k => dispatchList ((events.filter fun p => p.1 = k + 1).map node)

/-- What holds after a sequence of calls. -/
structure Holds (ops : List Op) (r : Run) : Prop where
  due : ∀ p ∈ scheduled 0 ops, p.1 < ticks ops + 2 ^ 31
  placed : Placed (ticks ops) ((scheduled 0 ops).filter fun p => ticks ops < p.1) r.timer
  dispatched : r.dispatched = dispatchedBy (scheduled 0 ops) (ticks ops)

theorem Holds.add {ops : List Op} {r : Run} (h : Holds ops r) (event : TimerEvent) (time : Delay) :
  Holds (ops ++ [.add event time]) (r.step (.add event time))
  := by
  have hticks : ticks (ops ++ [.add event time]) = ticks ops := ticks_append ops _
  have hscheduled : scheduled 0 (ops ++ [.add event time])
      = scheduled 0 ops ++ [(ticks ops + time.val, event)] := by
    rw [scheduled_append, Nat.zero_add]
    rfl
  obtain ⟨hpos, hlt⟩ := time.property
  constructor
  · intro p hp
    rw [hticks]
    rw [hscheduled, List.mem_append, List.mem_singleton] at hp
    rcases hp with hp | rfl
    · exact h.due p hp
    · exact Nat.add_lt_add_left hlt _
  · rw [hticks, hscheduled, List.filter_append]
    have hlater : ([(ticks ops + time.val, event)].filter fun p => ticks ops < p.1)
        = [(ticks ops + time.val, event)] :=
      List.filter_eq_self.mpr (by simp [hpos])
    rw [hlater]
    exact h.placed.add event time
  · rw [hticks, hscheduled]
    refine h.dispatched.trans ?_
    unfold dispatchedBy
    apply List.map_congr_left
    intro k hk
    rw [List.mem_range] at hk
    have hlater : ([(ticks ops + time.val, event)].filter fun p => p.1 = k + 1) = [] :=
      List.filter_eq_nil_iff.mpr (by
        intro p hp
        rw [List.mem_singleton] at hp
        rw [hp, decide_eq_true_eq]
        omega)
    rw [List.filter_append, hlater, List.append_nil]

theorem Holds.update {ops : List Op} {r : Run} (h : Holds ops r) :
  Holds (ops ++ [.update]) (r.step .update)
  := by
  have hticks : ticks (ops ++ [.update]) = ticks ops + 1 := ticks_append ops _
  have hscheduled : scheduled 0 (ops ++ [.update]) = scheduled 0 ops := by
    rw [scheduled_append]
    exact List.append_nil _
  obtain ⟨hnodes, hplaced⟩ := h.placed.update (by
    intro p hp
    obtain ⟨hp, hlt⟩ := List.mem_filter.mp hp
    exact ⟨of_decide_eq_true hlt, h.due p hp⟩)
  constructor
  · intro p hp
    rw [hscheduled] at hp
    have := h.due p hp
    omega
  · rw [hticks, hscheduled]
    rw [List.filter_filter] at hplaced
    have hlater : ((scheduled 0 ops).filter fun p => decide (p.1 ≠ ticks ops + 1) && decide (ticks ops < p.1))
        = (scheduled 0 ops).filter fun p => ticks ops + 1 < p.1 := by
      apply List.filter_congr
      intro p _
      rw [← Bool.decide_and, decide_eq_decide]
      omega
    rw [hlater] at hplaced
    exact hplaced
  · rw [hticks, hscheduled]
    rw [List.filter_filter] at hnodes
    have hnow : ((scheduled 0 ops).filter fun p => decide (p.1 = ticks ops + 1) && decide (ticks ops < p.1))
        = (scheduled 0 ops).filter fun p => p.1 = ticks ops + 1 := by
      apply List.filter_congr
      intro p _
      rw [← Bool.decide_and, decide_eq_decide]
      omega
    rw [hnow] at hnodes
    have hstep : (r.step .update).dispatched = r.dispatched ++ [dispatchList r.timer.update.1] := rfl
    rw [hstep, h.dispatched, hnodes, dispatchedBy, dispatchedBy, List.range_succ, List.map_append,
      List.map_singleton]

theorem holds (ops : List Op) :
  Holds ops (run ops)
  := by
  unfold run
  induction ops using List.reverseRecOn with
  | nil => exact ⟨nofun, ⟨rfl, fun _ => rfl⟩, rfl⟩
  | append_singleton ops op ih =>
      rw [List.foldl_append, List.foldl_cons, List.foldl_nil]
      cases op with
      | add event time => exact ih.add event time
      | update => exact ih.update

/-- Each event is dispatched once, by the update that advances the time to its tick, and events due at the
same tick are dispatched in the order in which they were added; the time is the number of updates, in 32
bits. -/
theorem dispatched_at_tick (ops : List Op) :
  (run ops).timer.time = ticks ops % 2 ^ 32 ∧
    (run ops).dispatched = (List.range (ticks ops)).map fun k =>
      ((scheduled 0 ops).filter fun p => p.1 = k + 1).map fun p =>
        (p.2.handle, { source := 0, session := p.2.session, type := PTYPE_RESPONSE, data := [] })
  := by
  have h := holds ops
  refine ⟨h.placed.time, h.dispatched.trans ?_⟩
  unfold dispatchedBy
  apply List.map_congr_left
  intro k _
  rw [dispatchList, List.map_map]
  rfl

end Run

end Timer

end Skynet
