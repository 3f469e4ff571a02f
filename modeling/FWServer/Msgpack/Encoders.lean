import FWServer.Msgpack.Reassembly

/-!
# The encoders

`lualib-src/lua-msgpack.c`: `lpack`, `lpack_string` and `lpack_padding` put the size of a payload, in two
bytes, before it, and `lpack2stream` of `lualib-src/lua-gatepack.c` leaves room for the size of a header
and writes it there.  All refuse a payload that is too long.

The longest payload they let through has `0x10000` bytes, and its size does not fit the header.  So what
they write is read back as the payload precisely when it is not that long.
-/

open Framing

namespace Netpack

/-! ### Writing -/

/-- The error of a payload that is too long, whose length is printed as an `int`. -/
def tooLong (len : ℕ) : String :=
  "Invalid size (too long) of data : " ++ toString (BitVec.ofNat 32 len).toInt

/-- `write_size` -/
def writeSize (len : ℕ) : List UInt8 :=
  [UInt8.ofNat (len >>> 8 &&& 0xFF), UInt8.ofNat (len &&& 0xFF)]

/-- What `lpack` and the other two do with the bytes that are to follow the size. -/
def writePack (bytes : List UInt8) : Except String (List UInt8) :=
  let len := bytes.length
  if len > 0x10000 then .error (tooLong len) else .ok (writeSize len ++ bytes)

/-- `lpack` -/
def lpack (msg : List UInt8) : Except String (List UInt8) :=
  writePack msg

/-- `lpack_string`, which returns a string and not a buffer. -/
def lpackString (msg : List UInt8) : Except String (List UInt8) :=
  writePack msg

/-- `lpack_padding`: the cookie is the first argument and comes last. -/
def lpackPadding (cookie msg : List UInt8) : Except String (List UInt8) :=
  writePack (msg ++ cookie)

end Netpack

namespace Gatepack

/-- `write_size`, to the start of a buffer. -/
def writeSize (buffer : List UInt8) (len : ℕ) : List UInt8 :=
  (buffer.set 0 (UInt8.ofNat (len >>> 8 &&& 0xFF))).set 1 (UInt8.ofNat (len &&& 0xFF))

/-- `lpack2stream` -/
def lpack2stream (bsize : ℕ) (msg : List UInt8) : Except String (List UInt8) :=
  let sz := msg.length
  if sz > 0x10000 then .error (Netpack.tooLong sz)
  else .ok (writeSize (List.replicate bsize 0 ++ msg) sz)

end Gatepack

namespace Netpack

/-- A call of an encoder. -/
inductive Encoding where
  | pack (msg : List UInt8)
  | packString (msg : List UInt8)
  | packPadding (cookie msg : List UInt8)
  | pack2stream (msg : List UInt8)

/-- The payload a call is to send. -/
def Encoding.payload : Encoding → List UInt8
  | .pack msg => msg
  | .packString msg => msg
  | .packPadding cookie msg => msg ++ cookie
  | .pack2stream msg => msg

/-- What a call returns; the header of a stream has two bytes. -/
def Encoding.output : Encoding → Except String (List UInt8)
  | .pack msg => lpack msg
  | .packString msg => lpackString msg
  | .packPadding cookie msg => lpackPadding cookie msg
  | .pack2stream msg => Gatepack.lpack2stream 2 msg

/-! ### Reading back -/

/-- The filter has kept nothing and has no package in its queue. -/
def Empty (q : Option Queue) : Prop :=
  (∀ h, (getQueue q).hash h = []) ∧ (getQueue q).ring.contents = []

/-- The header says how many bytes follow, and the filter finds the payload and nothing else. -/
structure ReadBack (payload output : List UInt8) : Prop where
  header : ∃ b₀ b₁ body, output = b₀ :: b₁ :: body ∧ readSize b₀ b₁ = body.length
  received : ∀ q, Empty q → ∀ fd,
    (receive q fd output).1 = [packOf fd payload] ∧ Empty (receive q fd output).2

theorem empty_iff_holds (q : Option Queue) :
  Empty q ↔ Holds q (fun _ => []) []
  := by
  constructor
  · intro h
    constructor
    · intro i uc huc
      rw [h.1] at huc
      cases huc
    · intro fd
      rw [h.1]
      apply Recorded.nothing
    · apply h.2
  · intro h
    use fun i => ?_
    · apply h.queued
    · apply List.eq_nil_iff_forall_not_mem.mpr
      intro uc huc
      have hnil := (h.kept uc.pack.id).eq_nil rfl
      rw [h.home i uc huc] at hnil
      have hmem : uc ∈ records uc.pack.id ((getQueue q).hash i) := by
        apply List.mem_filter.mpr
        use huc
        apply decide_eq_true rfl
      rw [hnil] at hmem
      cases hmem

/-- Masking a byte changes nothing. -/
theorem ofNat_and (n : ℕ) :
  UInt8.ofNat (n &&& 0xFF) = UInt8.ofNat n
  := by
  apply UInt8.toNat_inj.mp
  rw [UInt8.toNat_ofNat', UInt8.toNat_ofNat', Nat.and_two_pow_sub_one_eq_mod n 8, Nat.mod_mod]

/-- What is written before the bytes makes a frame of them. -/
theorem writeSize_append (bytes : List UInt8) :
  writeSize bytes.length ++ bytes = encode bytes
  := by
  rw [writeSize, ofNat_and, ofNat_and, Nat.shiftRight_eq_div_pow]
  rfl

/-- Every encoder frames the payload, unless it is too long. -/
theorem Encoding.output_eq (c : Encoding) :
  c.output = if c.payload.length > 0x10000 then .error (tooLong c.payload.length)
    else .ok (encode c.payload)
  := by
  rw [← writeSize_append]
  cases c with
  | pack msg => rfl
  | packString msg => rfl
  | packPadding cookie msg => rfl
  | pack2stream msg => rfl

/-- A frame whose size fits the header is read back. -/
theorem ReadBack.of_le {payload : List UInt8} (h : payload.length ≤ 0xFFFF) :
  ReadBack payload (encode payload)
  where
  header := by
    use UInt8.ofNat (payload.length / 256), UInt8.ofNat payload.length, payload, rfl
    rw [readSize_eq, size_ofNat h]
  received q hq fd := by
    have hsplit : split (encode payload) = ([payload], []) := by
      have hnil := split_encode h []
      rwa [List.append_nil, split_nil] at hnil
    have hne : encode payload ≠ [] := List.cons_ne_nil _ _
    have hreceive := receive_holds ((empty_iff_holds q).mp hq) fd hne
    dsimp only at hreceive
    rw [List.nil_append, hsplit, Function.update_eq_self] at hreceive
    use hreceive.1
    apply (empty_iff_holds _).mpr hreceive.2

/-- The header of a frame with too many bytes does not say how many follow. -/
theorem ReadBack.length_le {payload : List UInt8} (h : ReadBack payload (encode payload)) :
  payload.length ≤ 0xFFFF
  := by
  obtain ⟨b₀, b₁, body, hframe, hsize⟩ := h.header
  obtain ⟨-, -, hbody⟩ : _ ∧ _ ∧ payload = body := by
    rwa [encode, List.cons.injEq, List.cons.injEq] at hframe
  rw [hbody, ← hsize, readSize_eq]
  apply size_lt

/-- What an encoder accepts is read back as the payload precisely when the payload does not have `0x10000`
bytes. -/
theorem encoded_read_back_iff (c : Encoding) {output : List UInt8} (h : c.output = .ok output) :
  ReadBack c.payload output ↔ c.payload.length ≠ 0x10000
  := by
  rw [c.output_eq] at h
  split at h
  · cases h
  · next hle =>
      obtain rfl := Except.ok.inj h
      constructor
      · intro hback heq
        have hlength := hback.length_le
        omega
      · intro hne
        apply ReadBack.of_le
        omega

theorem encoded_read_back_cookie :
  ReadBack [7, 8, 9, 1, 2] [0, 5, 7, 8, 9, 1, 2]
  := (encoded_read_back_iff (.packPadding [1, 2] [7, 8, 9]) rfl).mpr (by decide)

/-- The longest payload that is accepted is not read back. -/
theorem longest_not_read_back :
  ¬ ∀ (c : Encoding) (output : List UInt8), c.output = .ok output → ReadBack c.payload output
  := by
  intro h
  have hlength : (List.replicate 0x10000 (0 : UInt8)).length = 0x10000 := List.length_replicate
  let c := Encoding.pack (List.replicate 0x10000 0)
  have houtput : c.output = .ok (encode c.payload) := by
    rw [c.output_eq, if_neg]
    apply Nat.not_lt.mpr
    apply le_of_eq hlength
  have hback := (h c _ houtput).length_le
  rw [show c.payload.length = 0x10000 from hlength] at hback
  omega

end Netpack
