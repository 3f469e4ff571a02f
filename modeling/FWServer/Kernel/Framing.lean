import Mathlib.Data.List.Basic
import Mathlib.Data.Nat.Notation

/-!
# Frames

A frame is two bytes, which are the length of what follows in big-endian order, and the bytes that
follow.  `Framing.split` takes the frames off the front of a stream of bytes; what is left over is the
beginning of a frame.

How a stream is divided makes no difference: `split_append` says that it may be split piece by piece,
what is left over of one piece being put before the next.
-/

namespace Framing

/-- The length two bytes stand for. -/
def size (hi lo : UInt8) : ℕ :=
  hi.toNat * 256 + lo.toNat

/-- The frame of a payload. -/
def encode (payload : List UInt8) : List UInt8 :=
  UInt8.ofNat (payload.length / 256) :: UInt8.ofNat payload.length :: payload

/-- The payloads of the frames a stream begins with, and what is left over. -/
def split : List UInt8 → List (List UInt8) × List UInt8
  | hi :: lo :: bytes =>
      if bytes.length < size hi lo then ([], hi :: lo :: bytes)
      else
        let (payloads, rest) := split (bytes.drop (size hi lo))
        (bytes.take (size hi lo) :: payloads, rest)
  | bytes => ([], bytes)
termination_by bytes => bytes.length
decreasing_by
  rw [List.length_drop, List.length_cons, List.length_cons]
  omega

/-- The bytes are the beginning of a frame. -/
def Incomplete (bytes : List UInt8) : Prop :=
  ∃ payload rest, payload.length ≤ 0xFFFF ∧ rest ≠ [] ∧ encode payload = bytes ++ rest

/-! ### Sizes -/

theorem size_lt (hi lo : UInt8) :
  size hi lo ≤ 0xFFFF
  := by
  have hhi := hi.toNat_lt
  have hlo := lo.toNat_lt
  unfold size
  omega

@[simp]
theorem ofNat_size_div (hi lo : UInt8) :
  UInt8.ofNat (size hi lo / 256) = hi
  := by
  have hlo := lo.toNat_lt
  have hdiv : size hi lo / 256 = hi.toNat := by
    unfold size
    omega
  rw [hdiv, UInt8.ofNat_toNat]

@[simp]
theorem ofNat_size (hi lo : UInt8) :
  UInt8.ofNat (size hi lo) = lo
  := by
  apply UInt8.toNat_inj.mp
  have hlo := lo.toNat_lt
  rw [UInt8.toNat_ofNat']
  unfold size
  omega

theorem size_ofNat {n : ℕ} (h : n ≤ 0xFFFF) :
  size (UInt8.ofNat (n / 256)) (UInt8.ofNat n) = n
  := by
  unfold size
  rw [UInt8.toNat_ofNat', UInt8.toNat_ofNat']
  omega

/-! ### Splitting -/

theorem split_nil :
  split [] = ([], [])
  := by rw [split]; exact nofun

theorem split_singleton (b : UInt8) :
  split [b] = ([], [b])
  := by rw [split]; exact nofun

theorem split_of_lt {hi lo : UInt8} {bytes : List UInt8} (h : bytes.length < size hi lo) :
  split (hi :: lo :: bytes) = ([], hi :: lo :: bytes)
  := by rw [split, if_pos h]

theorem split_of_le {hi lo : UInt8} {bytes : List UInt8} (h : size hi lo ≤ bytes.length) :
  split (hi :: lo :: bytes) = (bytes.take (size hi lo) :: (split (bytes.drop (size hi lo))).1,
    (split (bytes.drop (size hi lo))).2)
  := by rw [split, if_neg (Nat.not_lt.mpr h)]

/-- A frame is taken off the front. -/
theorem split_encode {payload : List UInt8} (h : payload.length ≤ 0xFFFF) (bytes : List UInt8) :
  split (encode payload ++ bytes) = (payload :: (split bytes).1, (split bytes).2)
  := by
  have hsize := size_ofNat h
  have hle : size (UInt8.ofNat (payload.length / 256)) (UInt8.ofNat payload.length)
      ≤ (payload ++ bytes).length := by
    rw [hsize, List.length_append]
    omega
  change split (_ :: _ :: (payload ++ bytes)) = _
  rw [split_of_le hle, hsize, List.take_left, List.drop_left]

/-- The beginning of a frame holds no frame. -/
theorem split_incomplete {bytes : List UInt8} (h : Incomplete bytes) :
  split bytes = ([], bytes)
  := by
  obtain ⟨payload, rest, hlength, hrest, heq⟩ := h
  match bytes with
  | [] => exact split_nil
  | [b] => exact split_singleton b
  | hi :: lo :: bytes =>
      unfold encode at heq
      rw [List.cons_append, List.cons_append, List.cons.injEq, List.cons.injEq] at heq
      obtain ⟨rfl, rfl, rfl⟩ := heq
      apply split_of_lt
      rw [size_ofNat hlength, List.length_append]
      have := List.length_pos_iff.mpr hrest
      omega

/-- A stream of frames that ends with the beginning of one is split into these. -/
theorem split_stream {payloads : List (List UInt8)} (h : ∀ p ∈ payloads, p.length ≤ 0xFFFF)
    {rest : List UInt8} (hrest : Incomplete rest) :
  split (payloads.flatMap encode ++ rest) = (payloads, rest)
  := by
  induction payloads with
  | nil => exact split_incomplete hrest
  | cons p payloads ih =>
      have ih' := ih fun q hq => h q (List.mem_cons_of_mem p hq)
      rw [List.flatMap_cons, List.append_assoc, split_encode (h p List.mem_cons_self), ih']

/-- What is left over holds no frame. -/
theorem split_rest (bytes : List UInt8) :
  split (split bytes).2 = ([], (split bytes).2)
  := by
  fun_induction split bytes with
  | case1 hi lo bytes h => exact split_of_lt h
  | case2 hi lo bytes h payloads rest heq ih => rwa [heq] at ih
  | case3 bytes h =>
      rw [split]
      exact h

/-- A stream in which there is no frame is left over. -/
theorem split_snd_of_nil {bytes : List UInt8} (h : (split bytes).1 = []) :
  (split bytes).2 = bytes
  := by
  fun_induction split bytes with
  | case1 hi lo bytes hlt => rfl
  | case2 hi lo bytes hle payloads rest heq ih => cases h
  | case3 bytes hshort => rfl

/-- A stream may be split piece by piece. -/
theorem split_append (bytes bytes' : List UInt8) :
  split (bytes ++ bytes') =
    ((split bytes).1 ++ (split ((split bytes).2 ++ bytes')).1, (split ((split bytes).2 ++ bytes')).2)
  := by
  fun_induction split bytes with
  | case1 hi lo bytes h => rfl
  | case2 hi lo bytes h payloads rest heq ih =>
      rw [heq] at ih
      have hle : size hi lo ≤ bytes.length := Nat.le_of_not_lt h
      have hle' : size hi lo ≤ (bytes ++ bytes').length := by
        rw [List.length_append]
        omega
      rw [List.cons_append, List.cons_append, split_of_le hle', List.take_append_of_le_length hle,
        List.drop_append_of_le_length hle, ih]
      rfl
  | case3 bytes h => rfl

end Framing
