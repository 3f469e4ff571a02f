import FWServer.Kernel.Occurrence
import FWServer.Skynet.SocketBuffer

/-!
# Socket buffers as queues

A socket buffer is a queue of bytes: what is taken from it, by its size or up to a separator, is what has been put in
first, wherever the blocks end (`fifo_refined_iff`).  This holds as long as the sizes that come from Lua are in the
range of an `int`.
-/

open Occurrence

namespace Skynet

namespace SocketBuffer

open LittleEndian (toInt)

/-! ### A queue of bytes -/

/-- What a call does to a queue of bytes. -/
def fifo (bytes : List UInt8) : Call → Result × List UInt8
  | .push msg => (.size (bytes.length + msg.length), bytes ++ msg)
  | .pop sz =>
      if sz ≤ bytes.length then (.popped (some (bytes.take sz.toNat)) (bytes.length - sz), bytes.drop sz.toNat)
      else (.popped none bytes.length, bytes)
  | .readline check sep =>
      match position sep bytes with
      | none => (if check then .checked false else .line none, bytes)
      | some i =>
          if check then (.checked true, bytes) else (.line (some (bytes.take i)), bytes.drop (i + sep.length))
  | .readall => (.all bytes, [])
  | .clear => (.cleared, [])

/-- What calls do, one after another. -/
def fifoRun (bytes : List UInt8) : List Call → List Result × List UInt8
  | [] => ([], bytes)
  | c :: cs =>
      let (r, bytes) := fifo bytes c
      let (rs, bytes) := fifoRun bytes cs
      (r :: rs, bytes)

/-! ### Blocks and their bytes -/

/-- The bytes that are left of some blocks. -/
def bytesOf (blocks : List (List UInt8)) (offset : ℕ) : List UInt8 :=
  blocks.flatten.drop offset

/-- The offset is one of a byte in the first block. -/
def Within : List (List UInt8) → ℕ → Prop
  | [], offset => offset = 0
  | current :: _, offset => offset < current.length

/-- No block is empty, and a part of the first one is left. -/
structure Blocks (blocks : List (List UInt8)) (offset : ℕ) : Prop where
  nonempty : ∀ b ∈ blocks, b ≠ []
  within : Within blocks offset

section

variable {current : List UInt8} {rest blocks : List (List UInt8)} {offset : ℕ}

theorem Blocks.lt (h : Blocks (current :: rest) offset) :
  offset < current.length
  := h.within

theorem bytesOf_cons (h : offset ≤ current.length) :
  bytesOf (current :: rest) offset = current.drop offset ++ rest.flatten
  := by
  rw [bytesOf, List.flatten_cons, List.drop_append_of_le_length h]

theorem bytesOf_zero (blocks : List (List UInt8)) :
  bytesOf blocks 0 = blocks.flatten
  := List.drop_zero

theorem blocks_zero (h : ∀ b ∈ blocks, b ≠ []) :
  Blocks blocks 0
  := by
  refine ⟨h, ?_⟩
  cases blocks with
  | nil => rfl
  | cons current rest => exact List.length_pos_iff.mpr (h current List.mem_cons_self)

theorem Blocks.next (h : Blocks (current :: rest) offset) :
  Blocks rest 0
  := blocks_zero fun b hb => h.nonempty b (List.mem_cons_of_mem current hb)

theorem Blocks.bytesOf_cons (h : Blocks (current :: rest) offset) :
  bytesOf (current :: rest) offset = current.drop offset ++ bytesOf rest 0
  := by rw [SocketBuffer.bytesOf_cons (Nat.le_of_lt h.lt), bytesOf_zero]

theorem Blocks.length_bytesOf (h : Blocks (current :: rest) offset) :
  (bytesOf (current :: rest) offset).length = (current.length - offset) + (bytesOf rest 0).length
  := by rw [h.bytesOf_cons, List.length_append, List.length_drop]

/-- Blocks after a part of the first one has been taken. -/
theorem Blocks.advance {sz : ℕ} (h : Blocks (current :: rest) offset) (hlt : offset + sz < current.length) :
  Blocks (current :: rest) (offset + sz) ∧
    bytesOf (current :: rest) (offset + sz) = (bytesOf (current :: rest) offset).drop sz
  := by
  refine ⟨⟨h.nonempty, hlt⟩, ?_⟩
  rw [bytesOf, bytesOf, List.drop_drop]

/-- Blocks after the first one has been taken. -/
theorem Blocks.drop_first (h : Blocks (current :: rest) offset) :
  bytesOf rest 0 = (bytesOf (current :: rest) offset).drop (current.length - offset)
  := by
  rw [h.bytesOf_cons, ← List.length_drop, List.drop_left]

/-- A number of bytes that are all in the first block. -/
theorem Blocks.take_first {sz : ℕ} (h : Blocks (current :: rest) offset) (hle : sz ≤ current.length - offset) :
  (bytesOf (current :: rest) offset).take sz = (current.drop offset).take sz
  := by
  rw [h.bytesOf_cons, List.take_append_of_le_length]
  rwa [List.length_drop]

/-- A number of bytes that are not all in the first block. -/
theorem Blocks.take_rest {sz : ℕ} (h : Blocks (current :: rest) offset) (hle : current.length - offset ≤ sz) :
  (bytesOf (current :: rest) offset).take sz =
    current.drop offset ++ (bytesOf rest 0).take (sz - (current.length - offset))
  := by
  rw [h.bytesOf_cons, List.take_append, List.take_of_length_le, List.length_drop]
  rwa [List.length_drop]

/-- What is copied when all that is taken is in the first block. -/
theorem Blocks.copy_first {sz : ℕ} (skip : ℕ) (h : Blocks (current :: rest) offset)
    (hfirst : (sz : ℤ) ≤ current.length - offset) :
  (if (skip : ℤ) < sz then (current.drop offset).take ((sz : ℤ) - skip).toNat else []) =
    (bytesOf (current :: rest) offset).take (sz - skip)
  := by
  have hlt := h.lt
  rw [h.take_first (by omega)]
  split_ifs with hskip
  · congr 1
    omega
  · have hnone : sz - skip = 0 := by omega
    rw [hnone, List.take_zero]

/-- What is copied of the first block, before what is copied of the others. -/
theorem Blocks.copy_rest {sz : ℕ} (skip : ℕ) (h : Blocks (current :: rest) offset) :
  (if 0 < (sz : ℤ) - skip then
      (current.drop offset).take (min ((sz : ℤ) - skip) (current.length - offset)).toNat else []) ++
    (bytesOf rest 0).take (sz - (current.length - offset) - skip) =
      (bytesOf (current :: rest) offset).take (sz - skip)
  := by
  have hlt := h.lt
  rcases Nat.le_total (sz - skip) (current.length - offset) with hshort | hlong
  · -- what comes after the first block is skipped
    have hnone : sz - (current.length - offset) - skip = 0 := by omega
    rw [hnone, List.take_zero, List.append_nil, h.take_first hshort]
    split_ifs with hreal
    · congr 1
      omega
    · have hzero : sz - skip = 0 := by omega
      rw [hzero, List.take_zero]
  · have hreal : 0 < (sz : ℤ) - skip := by omega
    have hall : (min ((sz : ℤ) - skip) (current.length - offset)).toNat = (current.drop offset).length := by
      rw [List.length_drop]
      omega
    rw [if_pos hreal, hall, List.take_length, h.take_rest hlong, Nat.sub_right_comm]

/-- The loop copies what comes before the bytes that are skipped, and takes all of them. -/
theorem popLoop_spec {sz : ℕ} (skip : ℕ) (h : Blocks blocks offset) (hpos : 0 < sz)
    (hle : sz ≤ (bytesOf blocks offset).length) :
  ∃ blocks' offset', popLoop blocks offset sz skip = some ((bytesOf blocks offset).take (sz - skip), blocks', offset') ∧
    Blocks blocks' offset' ∧ bytesOf blocks' offset' = (bytesOf blocks offset).drop sz
  := by
  induction blocks generalizing offset sz with
  | nil =>
      rw [bytesOf, List.flatten_nil, List.drop_nil, List.length_nil] at hle
      omega
  | cons current rest ih =>
      have hlt := h.lt
      have hlength := h.length_bytesOf
      rw [popLoop]
      dsimp only
      by_cases hfirst : (sz : ℤ) ≤ current.length - offset
      · rw [if_pos hfirst, h.copy_first skip hfirst]
        by_cases hall : (current.length : ℤ) - offset = sz
        · rw [if_pos hall]
          refine ⟨_, _, rfl, h.next, ?_⟩
          rw [h.drop_first]
          congr 1
          omega
        · rw [if_neg hall, Int.toNat_natCast]
          have hmore : offset + sz < current.length := by omega
          obtain ⟨hblocks, hbytes⟩ := h.advance hmore
          exact ⟨_, _, rfl, hblocks, hbytes⟩
      · have hsub : (sz : ℤ) - (current.length - offset) = ((sz - (current.length - offset) : ℕ) : ℤ) := by omega
        have hleft : 0 < sz - (current.length - offset) := by omega
        obtain ⟨blocks', offset', hloop, hblocks, hbytes⟩ := ih h.next hleft (by omega)
        rw [if_neg hfirst, hsub, hloop, Option.map_some]
        dsimp only
        rw [h.copy_rest skip]
        refine ⟨blocks', offset', rfl, hblocks, ?_⟩
        rw [hbytes, h.drop_first, List.drop_drop]
        congr 1
        omega

theorem readLoop_eq (h : Blocks blocks offset) :
  readLoop blocks offset = bytesOf blocks offset
  := by
  induction blocks generalizing offset with
  | nil => rw [readLoop, bytesOf, List.flatten_nil, List.drop_nil]
  | cons current rest ih => rw [readLoop, ih h.next, h.bytesOf_cons]

/-! ### Separators -/

/-- The first `t` elements of a list are those of another. -/
theorem take_prefix_iff {xs ys : List UInt8} {t : ℕ} (h : t ≤ ys.length) :
  ys.take t <+: xs ↔ xs.take t = ys.take t
  := by rw [List.prefix_iff_eq_take, List.length_take_of_le h, eq_comm]

/-- A separator is compared with what comes next, wherever the blocks end. -/
theorem checkSep_spec {sep : List UInt8} {t : ℕ} (h : Blocks blocks offset) (hpos : 0 < t) (hsep : t ≤ sep.length)
    (hle : t ≤ (bytesOf blocks offset).length) :
  checkSep blocks offset sep t = some (decide (sep.take t <+: bytesOf blocks offset))
  := by
  induction blocks generalizing offset sep t with
  | nil =>
      rw [bytesOf, List.flatten_nil, List.drop_nil, List.length_nil] at hle
      omega
  | cons node rest ih =>
      have hlt := h.lt
      have hlength := h.length_bytesOf
      have hsz : (node.length : ℤ) - offset = ((node.length - offset : ℕ) : ℤ) := by omega
      simp only [take_prefix_iff hsep]
      rw [checkSep, hsz, Int.toNat_natCast, Int.toNat_natCast]
      by_cases hfirst : (t : ℤ) ≤ ((node.length - offset : ℕ) : ℤ)
      · rw [if_pos hfirst, if_neg (by omega), h.take_first (by omega)]
      · have hall : (node.drop offset).take (node.length - offset) = node.drop offset := by
          apply List.take_of_length_le
          rw [List.length_drop]
        have hsplit : (bytesOf (node :: rest) offset).take t = sep.take t ↔
            node.drop offset = sep.take (node.length - offset) ∧
              (bytesOf rest 0).take (t - (node.length - offset)) =
                (sep.drop (node.length - offset)).take (t - (node.length - offset)) := by
          have hadd : t = (node.length - offset) + (t - (node.length - offset)) := by omega
          rw [h.take_rest (by omega)]
          nth_rewrite 2 [hadd]
          rw [List.take_add]
          constructor
          · intro heq
            apply List.append_inj heq
            rw [List.length_drop, List.length_take_of_le (by omega)]
          · rintro ⟨hhead, htail⟩
            rw [hhead, htail]
        rw [if_neg hfirst, hall]
        by_cases hhead : node.drop offset = sep.take (node.length - offset)
        · have hsub : (t : ℤ) - ((node.length - offset : ℕ) : ℤ) = ((t - (node.length - offset) : ℕ) : ℤ) := by omega
          have hdrop : t - (node.length - offset) ≤ (sep.drop (node.length - offset)).length := by
            rw [List.length_drop]
            omega
          rw [if_neg fun hne => hne.2 hhead, hsub, ih h.next (by omega) hdrop (by omega)]
          simp only [take_prefix_iff hdrop, hsplit, and_iff_right hhead]
        · rw [if_pos ⟨by omega, hhead⟩]
          simp only [hsplit, hhead, false_and, decide_false]

/-- The loop finds the separator where it occurs first. -/
theorem lineLoop_spec {sep : List UInt8} {t n : ℕ} (h : Blocks (current :: rest) offset) (hpos : 0 < t)
    (hsep : t ≤ sep.length) (hn : n + t = (bytesOf (current :: rest) offset).length + 1) (i : ℕ) :
  lineLoop sep t n (current :: rest) offset (current.length - offset) i =
    some ((position (sep.take t) (bytesOf (current :: rest) offset)).map (i + ·))
  := by
  have htake : (sep.take t).length = t := List.length_take_of_le hsep
  induction n generalizing current rest offset i with
  | zero =>
      rw [lineLoop, position_of_length_lt (by omega)]
      rfl
  | succ n ih =>
      have hlt := h.lt
      have hlength := h.length_bytesOf
      rw [lineLoop, checkSep_spec h hpos hsep (by omega)]
      by_cases hpre : sep.take t <+: bytesOf (current :: rest) offset
      · rw [decide_eq_true hpre, position_of_prefix hpre]
        rfl
      · rw [decide_eq_false hpre]
        dsimp only
        have hne : bytesOf (current :: rest) offset ≠ [] := by
          apply List.ne_nil_of_length_pos
          omega
        have hmap : (position (sep.take t) (bytesOf (current :: rest) offset)).map (i + ·) =
            (position (sep.take t) ((bytesOf (current :: rest) offset).drop 1)).map (i + 1 + ·) := by
          rw [position_tail hne hpre, Option.map_map, List.drop_one]
          congr 1
          funext k
          exact Nat.add_right_comm i k 1
        rw [hmap]
        by_cases hend : (current.length : ℤ) - offset - 1 = 0
        · rw [if_pos hend, List.tail_cons]
          have hone : current.length - offset = 1 := by omega
          have hfirst : bytesOf rest 0 = (bytesOf (current :: rest) offset).drop 1 := by rw [h.drop_first, hone]
          rw [← hfirst]
          cases rest with
          | nil =>
              have hnil : sep.take t ≠ [] := List.ne_nil_of_length_pos (htake.symm ▸ hpos)
              rw [bytesOf_zero, List.flatten_nil, position_nil hnil]
              rfl
          | cons current' rest' =>
              have hnext := ih h.next (by omega) (i + 1)
              rw [Int.natCast_zero, sub_zero] at hnext
              exact hnext
        · rw [if_neg hend]
          have hmore : offset + 1 < current.length := by omega
          obtain ⟨hblocks, hbytes⟩ := h.advance hmore
          have hdrop : (bytesOf (current :: rest) (offset + 1)).length =
              (bytesOf (current :: rest) offset).length - 1 := by rw [hbytes, List.length_drop]
          have hnext := ih hblocks (by omega) (i + 1)
          rw [hbytes] at hnext
          have hsub : (current.length : ℤ) - offset - 1 = current.length - ((offset + 1 : ℕ) : ℤ) := by omega
          rw [hsub]
          exact hnext

end

/-! ### Calls -/

/-- A buffer holds bytes, and its size is their number. -/
structure Holds (sb : SocketBuffer) (bytes : List UInt8) : Prop where
  blocks : Blocks sb.blocks sb.offset
  contents : bytesOf sb.blocks sb.offset = bytes
  size : sb.size = bytes.length
  bounded : bytes.length < 2 ^ 31

/-- The calls that are considered: blocks are not empty, the total stays below 2 GB, a positive number of bytes is asked
for, and separators are not empty. -/
def Admissible (bytes : List UInt8) : Call → Prop
  | .push msg => msg ≠ [] ∧ bytes.length + msg.length < 2 ^ 31
  | .pop sz => 0 < sz
  | .readline _ sep => sep ≠ []
  | _ => True

/-- A number that is asked for and the length of a separator fit an `int`, or what is left of them there makes no
difference. -/
def InRange (bytes : List UInt8) : Call → Prop
  | .pop sz => sz < 2 ^ 31 ∨ toInt sz = 0 ∨ bytes.length < toInt sz
  | .readline _ sep => sep.length < 2 ^ 31 ∨ bytes = [] ∨ bytes.length < toInt sep.length ∨
      (0 < toInt sep.length ∧ position (sep.take (toInt sep.length).toNat) bytes = none)
  | _ => True

/-- `P` holds of each call and the bytes before it. -/
def Along (P : List UInt8 → Call → Prop) (bytes : List UInt8) : List Call → Prop
  | [] => True
  | c :: cs => P bytes c ∧ Along P (fifo bytes c).2 cs

section

variable {sb sb' : SocketBuffer} {bytes : List UInt8}

theorem holds_newbuffer :
  Holds newbuffer []
  := ⟨⟨nofun, rfl⟩, rfl, rfl, Nat.two_pow_pos 31⟩

theorem Holds.blocks_eq (h : Holds sb bytes) :
  (sb.blocks = [] ∧ bytes = []) ∨ ∃ current rest, sb.blocks = current :: rest ∧ bytes ≠ []
  := by
  have hblocks := h.blocks
  have hbytes := h.contents
  cases hsb : sb.blocks with
  | nil =>
      rw [hsb, bytesOf, List.flatten_nil, List.drop_nil] at hbytes
      exact .inl ⟨rfl, hbytes.symm⟩
  | cons current rest =>
      rw [hsb] at hblocks hbytes
      have hlt := hblocks.lt
      have hlength := hblocks.length_bytesOf
      refine .inr ⟨current, rest, rfl, ?_⟩
      rw [← hbytes]
      apply List.ne_nil_of_length_pos
      omega

/-- The bytes before those that are skipped are copied, and all of them are taken. -/
theorem Holds.popLstring {sz skip : ℕ} (h : Holds sb bytes) (hpos : 0 < sz) (hskip : skip ≤ sz)
    (hle : sz ≤ bytes.length) :
  ∃ sb', sb.popLstring sz skip = some (bytes.take (sz - skip), sb') ∧ sb'.size = sb.size ∧
    Blocks sb'.blocks sb'.offset ∧ bytesOf sb'.blocks sb'.offset = bytes.drop sz
  := by
  obtain ⟨-, rfl⟩ | ⟨current, rest, hsb, -⟩ := h.blocks_eq
  · rw [List.length_nil] at hle
    omega
  · have hblocks := h.blocks
    have hbytes := h.contents
    rw [hsb] at hblocks hbytes
    have hlt := hblocks.lt
    have hskip' : ¬ ((sz : ℤ) < skip) := by omega
    have hcopy : ((sz : ℤ) - skip).toNat = sz - skip := by omega
    unfold SocketBuffer.popLstring
    rw [hsb]
    dsimp only
    rw [if_neg hskip', if_neg hskip', hcopy, Int.toNat_natCast]
    by_cases hless : (sz : ℤ) < current.length - sb.offset
    · rw [if_pos hless, ← hblocks.take_first (by omega), hbytes]
      have hmore : sb.offset + sz < current.length := by omega
      obtain ⟨hblocks', hbytes'⟩ := hblocks.advance hmore
      rw [hbytes] at hbytes'
      exact ⟨_, rfl, rfl, hblocks', hbytes'⟩
    · rw [if_neg hless]
      by_cases hsame : (sz : ℤ) = current.length - sb.offset
      · rw [if_pos hsame, ← hblocks.take_first (by omega), hbytes]
        refine ⟨_, rfl, rfl, hblocks.next, ?_⟩
        rw [hblocks.drop_first, hbytes]
        congr 1
        omega
      · obtain ⟨blocks', offset', hloop, hblocks', hbytes'⟩ := popLoop_spec skip hblocks hpos (by rwa [hbytes])
        rw [hbytes] at hloop hbytes'
        rw [if_neg hsame, hloop]
        exact ⟨_, rfl, rfl, hblocks', hbytes'⟩

/-- A negative number of bytes cannot be copied. -/
theorem popLstring_negative {sz : ℤ} (h : Holds sb bytes) (hneg : sz < 0) :
  sb.popLstring sz 0 = none
  := by
  unfold SocketBuffer.popLstring
  cases hsb : sb.blocks with
  | nil => rfl
  | cons current rest =>
      have hblocks := h.blocks
      rw [hsb] at hblocks
      have hlt := hblocks.lt
      dsimp only
      rw [if_pos (by omega), if_pos hneg]

/-! ### Sizes from Lua -/

theorem lpopbuffer_nil {n : ℤ} (h : Holds sb bytes) (hnil : bytes.length < toInt n ∨ toInt n = 0) :
  sb.lpopbuffer n = some (.popped none bytes.length, sb)
  := by
  unfold lpopbuffer
  dsimp only
  rw [h.size, if_pos hnil]

theorem lpopbuffer_some {n : ℤ} {sz : ℕ} (h : Holds sb bytes) (hn : toInt n = sz) (hpos : 0 < sz)
    (hle : sz ≤ bytes.length) :
  ∃ sb', sb.lpopbuffer n = some (.popped (some (bytes.take sz)) (bytes.length - sz), sb') ∧ Holds sb' (bytes.drop sz)
  := by
  obtain ⟨sb', hpop, hsize, hblocks, hbytes⟩ := h.popLstring hpos (Nat.zero_le sz) hle
  rw [Int.natCast_zero] at hpop
  have hbounded := h.bounded
  unfold lpopbuffer
  dsimp only
  rw [hn, h.size, if_neg (by omega), hpop, Option.map_some, hsize, h.size, Nat.sub_zero]
  refine ⟨_, rfl, hblocks, hbytes, ?_, ?_⟩
  · rw [List.length_drop]
    exact (Int.ofNat_sub hle).symm
  · rw [List.length_drop]
    omega

theorem lpopbuffer_negative {n : ℤ} (h : Holds sb bytes) (hneg : toInt n < 0) :
  sb.lpopbuffer n = none
  := by
  have hsize := h.size
  unfold lpopbuffer
  dsimp only
  rw [if_neg (by omega), popLstring_negative h hneg]
  rfl

theorem toInt_of_mem {n : ℤ} (hpos : 0 < n) (hlt : n < 2 ^ 31) :
  toInt n = n
  := by
  lift n to ℕ using Int.le_of_lt hpos
  exact LittleEndian.toInt_of_lt (by omega)

/-- A number of bytes is taken as from a queue precisely when it is in range. -/
theorem lpopbuffer_inRange {n : ℤ} (h : Holds sb bytes) (hpos : 0 < n) :
  (InRange bytes (.pop n) → ∃ sb', sb.lpopbuffer n = some ((fifo bytes (.pop n)).1, sb') ∧
    Holds sb' (fifo bytes (.pop n)).2) ∧
  (∀ sb', sb.lpopbuffer n = some ((fifo bytes (.pop n)).1, sb') → InRange bytes (.pop n))
  := by
  have hbounded := h.bounded
  have hnone (hlarge : bytes.length < n) : fifo bytes (.pop n) = (.popped none bytes.length, bytes) :=
    if_neg (by omega)
  have hsome (hle : n ≤ bytes.length) :
      fifo bytes (.pop n) = (.popped (some (bytes.take n.toNat)) (bytes.length - n), bytes.drop n.toNat) :=
    if_pos hle
  constructor
  · intro hrange
    by_cases hle : n ≤ bytes.length
    · have hn : toInt n = n.toNat := by
        rw [toInt_of_mem hpos (by omega)]
        omega
      obtain ⟨sb', hpop, hholds⟩ := lpopbuffer_some h hn (by omega) (by omega)
      have hcast : ((n.toNat : ℕ) : ℤ) = n := by omega
      rw [hcast] at hpop
      rw [hsome hle]
      exact ⟨sb', hpop, hholds⟩
    · have hnil : bytes.length < toInt n ∨ toInt n = 0 := by
        rcases hrange with hlt | hzero | hlong
        · left
          rw [toInt_of_mem hpos hlt]
          omega
        · exact .inr hzero
        · exact .inl hlong
      rw [hnone (by omega)]
      exact ⟨sb, lpopbuffer_nil h hnil, h⟩
  · intro sb' hexec
    by_contra hrange
    obtain ⟨hlarge, hrange⟩ := not_or.mp hrange
    obtain ⟨hzero, hlong⟩ := not_or.mp hrange
    rw [hnone (by omega)] at hexec
    rcases Int.lt_or_gt_of_ne hzero with hneg | hpos'
    · rw [lpopbuffer_negative h hneg] at hexec
      cases hexec
    · obtain ⟨sz, hsz⟩ := Int.eq_ofNat_of_zero_le (Int.le_of_lt hpos')
      obtain ⟨sb'', hpop, -⟩ := lpopbuffer_some h hsz (by omega) (by omega)
      cases hpop.symm.trans hexec

/-! ### Separators from Lua -/

/-- What `lreadline` returns when there is no separator. -/
def nothing (check : Bool) : Result :=
  if check then .checked false else .line none

theorem fifo_readline_none {check : Bool} {sep : List UInt8} (h : position sep bytes = none) :
  fifo bytes (.readline check sep) = (nothing check, bytes)
  := by
  rw [fifo, h]
  rfl

/-- What the loop of `lreadline` finds. -/
def search (sb : SocketBuffer) (sep : List UInt8) : Option (Option ℕ) :=
  match sb.blocks with
  | [] => some none
  | current :: rest =>
      lineLoop sep (toInt sep.length) (sb.size - toInt sep.length + 1).toNat (current :: rest) sb.offset
        (current.length - sb.offset) 0

theorem search_cons {sep current : List UInt8} {rest : List (List UInt8)} (h : sb.blocks = current :: rest) :
  sb.search sep = lineLoop sep (toInt sep.length) (sb.size - toInt sep.length + 1).toNat (current :: rest) sb.offset
    (current.length - sb.offset) 0
  := by
  rw [search, h]

/-- What is returned when the loop does not find the separator. -/
theorem lreadline_none {check : Bool} {sep : List UInt8} (h : sb.search sep = some none) :
  sb.lreadline check sep = some (nothing check, sb)
  := by
  unfold lreadline
  cases hsb : sb.blocks with
  | nil => rfl
  | cons current rest =>
      rw [search_cons hsb] at h
      dsimp only
      rw [h]
      rfl

/-- Nothing is returned only then. -/
theorem search_of_nothing {check : Bool} {sep : List UInt8} (h : sb.lreadline check sep = some (nothing check, sb')) :
  sb.search sep = some none
  := by
  cases hsb : sb.blocks with
  | nil => rw [search, hsb]
  | cons current rest =>
      unfold lreadline at h
      rw [hsb] at h
      dsimp only at h
      split at h
      · cases h
      · next hloop => rw [search_cons hsb, hloop]
      · cases check with
        | true => cases h
        | false =>
            obtain ⟨_, -, hresult⟩ := Option.map_eq_some_iff.mp h
            cases hresult

/-- What is returned when the separator is found. -/
theorem lreadline_some (check : Bool) {sep : List UInt8} {i : ℕ} (h : Holds sb bytes) (hsep : sep ≠ [])
    (hle : i + sep.length ≤ bytes.length) (hsearch : sb.search sep = some (some i)) :
  ∃ sb', sb.lreadline check sep = some (if check then .checked true else .line (some (bytes.take i)), sb') ∧
    Holds sb' (if check then bytes else bytes.drop (i + sep.length))
  := by
  have hbounded := h.bounded
  have hpos := List.length_pos_iff.mpr hsep
  have hlength : toInt sep.length = sep.length := LittleEndian.toInt_of_lt (by omega)
  have htotal : toInt (i + sep.length : ℤ) = (i + sep.length : ℕ) := LittleEndian.toInt_of_lt (by omega)
  have hleft : toInt (sb.size - (i + sep.length)) = (bytes.length - (i + sep.length) : ℕ) := by
    have hsub : sb.size - (i + sep.length) = ((bytes.length - (i + sep.length) : ℕ) : ℤ) := by
      rw [h.size]
      omega
    rw [hsub]
    exact LittleEndian.toInt_of_lt (by omega)
  obtain ⟨-, rfl⟩ | ⟨current, rest, hsb, -⟩ := h.blocks_eq
  · rw [List.length_nil] at hle
    omega
  rw [search_cons hsb] at hsearch
  unfold lreadline
  rw [hsb]
  dsimp only
  rw [hsearch]
  cases check with
  | true => exact ⟨sb, rfl, h⟩
  | false =>
      obtain ⟨sb', hpop, hsize, hblocks, hbytes⟩ :=
        h.popLstring (Nat.add_pos_right i hpos) (Nat.le_add_left sep.length i) hle
      dsimp only
      rw [htotal, hlength, hpop, Option.map_some, Nat.add_sub_cancel, hsize, hleft]
      refine ⟨_, rfl, hblocks, hbytes, ?_, ?_⟩
      · exact congrArg Nat.cast List.length_drop.symm
      · exact Nat.lt_of_le_of_lt (Nat.le_of_eq List.length_drop) (by omega)

/-- Whatever is left of the length, nothing is found if it is more than what there is. -/
theorem search_long {sep : List UInt8} (h : Holds sb bytes) (hlong : bytes.length < toInt sep.length) :
  sb.search sep = some none
  := by
  cases hsb : sb.blocks with
  | nil => rw [search, hsb]
  | cons current rest =>
      have hzero : (sb.size - toInt sep.length + 1).toNat = 0 := by
        rw [h.size]
        omega
      rw [search_cons hsb, hzero, lineLoop]

/-- What is left of the separator is found where it occurs first. -/
theorem search_position {sep : List UInt8} {t : ℕ} (h : Holds sb bytes) (ht : toInt sep.length = t) (hpos : 0 < t)
    (hle : t ≤ bytes.length) :
  sb.search sep = some (position (sep.take t) bytes)
  := by
  obtain ⟨-, rfl⟩ | ⟨current, rest, hsb, -⟩ := h.blocks_eq
  · rw [List.length_nil] at hle
    omega
  have hblocks := h.blocks
  have hbytes := h.contents
  rw [hsb] at hblocks hbytes
  have hsep : t ≤ sep.length := by
    have hle' := LittleEndian.toInt_le sep.length
    omega
  have hturns : (sb.size - toInt sep.length + 1).toNat + t = (bytesOf (current :: rest) sb.offset).length + 1 := by
    rw [hbytes, h.size, ht]
    omega
  rw [ht] at hturns
  rw [search_cons hsb, ht, lineLoop_spec hblocks hpos hsep hturns 0, hbytes]
  cases position (sep.take t) bytes with
  | none => rfl
  | some k => rw [Option.map_some, Nat.zero_add]

/-- A length of which 0 or less is left is never one that is not found. -/
theorem search_nonpos {sep : List UInt8} (h : Holds sb bytes) (hne : bytes ≠ []) (hneg : toInt sep.length ≤ 0) :
  sb.search sep ≠ some none
  := by
  obtain ⟨-, hnil⟩ | ⟨current, rest, hsb, -⟩ := h.blocks_eq
  · exact absurd hnil hne
  have hblocks := h.blocks
  rw [hsb] at hblocks
  have hlt := hblocks.lt
  obtain ⟨n, hn⟩ : ∃ n, (sb.size - toInt sep.length + 1).toNat = n + 1 := by
    have hsize := h.size
    exact ⟨(sb.size - toInt sep.length).toNat, by omega⟩
  rw [search_cons hsb, hn, lineLoop, checkSep, if_pos (by omega)]
  rcases Int.lt_or_eq_of_le hneg with hneg | hzero
  · rw [if_pos hneg]
    exact nofun
  · rw [hzero]
    exact nofun

/-- A line is read as from a queue. -/
def ReadsLine (sb : SocketBuffer) (bytes : List UInt8) (check : Bool) (sep : List UInt8) : Prop :=
  ∃ sb', sb.lreadline check sep = some ((fifo bytes (.readline check sep)).1, sb') ∧
    Holds sb' (fifo bytes (.readline check sep)).2

theorem readsLine_none {sep : List UInt8} (h : Holds sb bytes) (check : Bool) (hnone : position sep bytes = none)
    (hsearch : sb.search sep = some none) :
  ReadsLine sb bytes check sep
  := by
  rw [ReadsLine, fifo_readline_none hnone]
  exact ⟨sb, lreadline_none hsearch, h⟩

/-- A separator whose length fits an `int` is found as in a queue. -/
theorem readsLine_of_lt {sep : List UInt8} (h : Holds sb bytes) (check : Bool) (hsep : sep ≠ [])
    (hlt : sep.length < 2 ^ 31) :
  ReadsLine sb bytes check sep
  := by
  have hlength : toInt sep.length = sep.length := LittleEndian.toInt_of_lt hlt
  by_cases hle : sep.length ≤ bytes.length
  · have hsearch := search_position h hlength (List.length_pos_iff.mpr hsep) hle
    rw [List.take_length] at hsearch
    cases hfound : position sep bytes with
    | none =>
        rw [hfound] at hsearch
        exact readsLine_none h check hfound hsearch
    | some i =>
        rw [hfound] at hsearch
        have hsome := lreadline_some check h hsep (add_length_le_of_position hfound hsep) hsearch
        rw [ReadsLine, fifo, hfound]
        cases check with
        | true => exact hsome
        | false => exact hsome
  · apply readsLine_none h check (position_of_length_lt (Nat.lt_of_not_le hle))
    exact search_long h (by omega)

/-- A separator is found as in a queue when what is left of it does not occur. -/
theorem readsLine_of_take {sep : List UInt8} {t : ℕ} (h : Holds sb bytes) (check : Bool) (ht : toInt sep.length = t)
    (hpos : 0 < t) (hnone : position (sep.take t) bytes = none) :
  ReadsLine sb bytes check sep
  := by
  apply readsLine_none h check (position_none_of_take hnone)
  by_cases hle : t ≤ bytes.length
  · rw [search_position h ht hpos hle, hnone]
  · exact search_long h (by omega)

/-- A line is read as from a queue precisely when the length of the separator is in range. -/
theorem lreadline_inRange {check : Bool} {sep : List UInt8} (h : Holds sb bytes) (hsep : sep ≠ []) :
  (InRange bytes (.readline check sep) → ReadsLine sb bytes check sep) ∧
  (∀ sb', sb.lreadline check sep = some ((fifo bytes (.readline check sep)).1, sb') →
    InRange bytes (.readline check sep))
  := by
  have hbounded := h.bounded
  constructor
  · rintro (hlt | rfl | hmore | ⟨hpos, hnone⟩)
    · exact readsLine_of_lt h check hsep hlt
    · apply readsLine_none h check (position_nil hsep)
      obtain ⟨hsb, -⟩ | ⟨current, rest, -, hne⟩ := h.blocks_eq
      · rw [search, hsb]
      · exact absurd rfl hne
    · apply readsLine_none h check _ (search_long h hmore)
      apply position_of_length_lt
      have hle := LittleEndian.toInt_le sep.length
      omega
    · obtain ⟨t, ht⟩ := Int.eq_ofNat_of_zero_le (Int.le_of_lt hpos)
      rw [ht, Int.toNat_natCast] at hnone
      exact readsLine_of_take h check ht (by omega) hnone
  · intro sb' hexec
    by_contra hrange
    obtain ⟨hlarge, hrange⟩ := not_or.mp hrange
    obtain ⟨hne, hrange⟩ := not_or.mp hrange
    obtain ⟨hless, hfound⟩ := not_or.mp hrange
    rw [fifo_readline_none (position_of_length_lt (by omega))] at hexec
    have hsearch := search_of_nothing hexec
    rcases Int.lt_or_le 0 (toInt sep.length) with hpos | hneg
    · obtain ⟨t, ht⟩ := Int.eq_ofNat_of_zero_le (Int.le_of_lt hpos)
      apply hfound
      refine ⟨hpos, ?_⟩
      rw [search_position h ht (by omega) (by omega)] at hsearch
      rw [ht, Int.toNat_natCast]
      exact Option.some.inj hsearch
    · exact search_nonpos h hne hneg hsearch

theorem Holds.push {msg : List UInt8} (h : Holds sb bytes) (hmsg : msg ≠ [])
    (hbounded : bytes.length + msg.length < 2 ^ 31) :
  Holds (sb.lpushbuffer msg).2 (bytes ++ msg)
  := by
  have hblocks := h.blocks
  have hbytes := h.contents
  constructor
  · constructor
    · intro b hb
      rcases List.mem_append.mp hb with hb | hb
      · exact hblocks.nonempty b hb
      · rwa [List.mem_singleton.mp hb]
    · dsimp only [lpushbuffer]
      cases hsb : sb.blocks with
      | nil =>
          rw [hsb] at hblocks
          have hzero : sb.offset = 0 := hblocks.within
          rw [hzero]
          exact List.length_pos_iff.mpr hmsg
      | cons current rest =>
          rw [hsb] at hblocks
          exact hblocks.lt
  · have hle : sb.offset ≤ sb.blocks.flatten.length := by
      cases hsb : sb.blocks with
      | nil =>
          rw [hsb] at hblocks
          have hzero : sb.offset = 0 := hblocks.within
          exact hzero ▸ Nat.zero_le _
      | cons current rest =>
          rw [hsb] at hblocks
          rw [List.flatten_cons, List.length_append]
          exact Nat.le_add_right_of_le (Nat.le_of_lt hblocks.lt)
    dsimp only [lpushbuffer]
    rw [bytesOf, List.flatten_append, List.flatten_singleton, List.drop_append_of_le_length hle]
    exact congrArg (· ++ msg) hbytes
  · dsimp only [lpushbuffer]
    rw [h.size, List.length_append, Nat.cast_add]
  · rw [List.length_append]
    exact hbounded

theorem Holds.returned (h : Holds sb bytes) :
  Holds sb.returned []
  := by
  refine ⟨⟨nofun, ?_⟩, ?_, rfl, Nat.two_pow_pos 31⟩
  · obtain ⟨hsb, -⟩ | ⟨current, rest, hsb, -⟩ := h.blocks_eq
    · have hwithin := h.blocks.within
      rw [hsb] at hwithin
      rw [SocketBuffer.returned, if_pos hsb]
      exact hwithin
    · rw [SocketBuffer.returned, if_neg (hsb ▸ List.cons_ne_nil current rest)]
      rfl
  · rw [SocketBuffer.returned, bytesOf, List.flatten_nil, List.drop_nil]

/-- A call does to the buffer what it does to a queue precisely when it is in range. -/
theorem exec_inRange {c : Call} (h : Holds sb bytes) (hc : Admissible bytes c) :
  (InRange bytes c → ∃ sb', sb.exec c = some ((fifo bytes c).1, sb') ∧ Holds sb' (fifo bytes c).2) ∧
  (∀ sb', sb.exec c = some ((fifo bytes c).1, sb') → InRange bytes c)
  := by
  cases c with
  | push msg =>
      refine ⟨fun _ => ⟨_, ?_, h.push hc.1 hc.2⟩, fun _ _ => trivial⟩
      rw [exec, lpushbuffer, h.size]
      rfl
  | pop sz => exact lpopbuffer_inRange h hc
  | readline check sep => exact lreadline_inRange h hc
  | readall =>
      refine ⟨fun _ => ⟨_, ?_, h.returned⟩, fun _ _ => trivial⟩
      rw [exec, lreadall, readLoop_eq h.blocks, h.contents]
      rfl
  | clear => exact ⟨fun _ => ⟨_, rfl, h.returned⟩, fun _ _ => trivial⟩

/-- The same of calls, one after another. -/
theorem run_inRange {cs : List Call} (h : Holds sb bytes) (hcs : Along Admissible bytes cs) :
  (Along InRange bytes cs → ∃ sb', sb.run cs = some ((fifoRun bytes cs).1, sb') ∧ Holds sb' (fifoRun bytes cs).2) ∧
  (∀ sb', sb.run cs = some ((fifoRun bytes cs).1, sb') → Along InRange bytes cs)
  := by
  induction cs generalizing sb bytes with
  | nil => exact ⟨fun _ => ⟨sb, rfl, h⟩, fun _ _ => trivial⟩
  | cons c cs ih =>
      obtain ⟨hcall, hinRange⟩ := exec_inRange h hcs.1
      constructor
      · rintro ⟨hc, hlater⟩
        obtain ⟨sb', hexec, h'⟩ := hcall hc
        obtain ⟨sb'', hrun, h''⟩ := (ih h' hcs.2).1 hlater
        refine ⟨sb'', ?_, h''⟩
        rw [run, hexec]
        dsimp only
        rw [hrun]
        rfl
      · intro sb'' hrun
        rw [run] at hrun
        split at hrun
        · cases hrun
        · next r sb' hexec =>
            obtain ⟨⟨rs, sb'''⟩, hlater, hresult⟩ := Option.map_eq_some_iff.mp hrun
            obtain ⟨hresults, rfl⟩ := Prod.mk.inj hresult
            obtain ⟨rfl, rfl⟩ := List.cons.inj hresults
            have hc := hinRange sb' hexec
            obtain ⟨sb₁, hexec', h'⟩ := hcall hc
            obtain rfl := (Prod.mk.inj (Option.some.inj (hexec.symm.trans hexec'))).2
            exact ⟨hc, (ih h' hcs.2).2 _ hlater⟩

/-- Calls on a new buffer return what they return on a queue of bytes, of which the buffer then has the bytes and the
number of them, precisely when they are in range. -/
theorem fifo_refined_iff {cs : List Call} (hcs : Along Admissible [] cs) :
  (∃ sb, newbuffer.run cs = some ((fifoRun [] cs).1, sb) ∧
    bytesOf sb.blocks sb.offset = (fifoRun [] cs).2 ∧ sb.size = (fifoRun [] cs).2.length) ↔
  Along InRange [] cs
  := by
  obtain ⟨hrefines, hinRange⟩ := run_inRange holds_newbuffer hcs
  constructor
  · rintro ⟨sb, hrun, -⟩
    exact hinRange sb hrun
  · intro hlater
    obtain ⟨sb, hrun, h⟩ := hrefines hlater
    exact ⟨sb, hrun, h.contents, h.size⟩

end

/-- A separator that is cut across two blocks. -/
theorem fifo_refined_iff_cut :
  ∃ sb, newbuffer.run [.push [7, 13], .push [10, 8], .readline false [13, 10]] =
      some ([.size 2, .size 4, .line (some [7])], sb) ∧
    bytesOf sb.blocks sb.offset = [8] ∧ sb.size = 1
  := by
  have hcs : Along Admissible [] [.push [7, 13], .push [10, 8], .readline false [13, 10]] :=
    ⟨⟨by decide, by decide⟩, ⟨by decide, by decide⟩, List.cons_ne_nil 13 [10], trivial⟩
  exact (fifo_refined_iff hcs).mpr ⟨trivial, trivial, .inl (by decide), trivial⟩

/-- One byte is taken where 4 GB and one are asked for. -/
theorem more_than_asked :
  Along Admissible [] [.push [7], .pop (2 ^ 32 + 1)] ∧
    newbuffer.run [.push [7], .pop (2 ^ 32 + 1)] = some ([.size 1, .popped (some [7]) 0], ⟨0, 0, []⟩) ∧
    ¬ ∃ sb, newbuffer.run [.push [7], .pop (2 ^ 32 + 1)] =
      some ((fifoRun [] [.push [7], .pop (2 ^ 32 + 1)]).1, sb)
  := by
  have hrun : newbuffer.run [.push [7], .pop (2 ^ 32 + 1)] =
      some ([.size 1, .popped (some [7]) 0], ⟨0, 0, []⟩) := by decide
  have hpos : (0 : ℤ) < 2 ^ 32 + 1 := by decide
  refine ⟨⟨⟨by decide, by decide⟩, hpos, trivial⟩, hrun, ?_⟩
  rintro ⟨sb, hfifo⟩
  have hresults := (Prod.mk.inj (Option.some.inj (hrun.symm.trans hfifo))).1
  revert hresults
  decide

end SocketBuffer

end Skynet
