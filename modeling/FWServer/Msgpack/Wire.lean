import FWServer.Crypt.RoundTrip
import FWServer.Msgpack.Chunking
import FWServer.Msgpack.Encoders
import FWServer.Msgpack.MessagePackRoundTrip

/-!
# Messages on the wire

`pack:_checkmsg` of `common/msgpack/pack.lua` with the bytes that it makes: an object is packed by MessagePack,
encrypted with the key of the handshake or with the one agreed on, or not at all, and put in a frame.  The other
end takes the package that the filter has found in the stream through the same stages backwards.

`messages_delivered` puts the stages together.  What arrives on any number of connections, interleaved and cut into any
chunks, is filtered; the objects that were sent on one of them, with the key that its receiver has, come out in order.
-/

namespace Wire

open MessagePack (trim)
open Netpack (Fd Pack packOf packsOf streamOf receiveAll)
open Seri (Object Heap Value Equals)

/-- How `_checkmsg` encrypts: before the end of the handshake, and after it if the protocol is `netcheckpackflag` or
not. -/
inductive Cipher where
  | handshake
  | ckey (key : List UInt8)
  | plain

/-- The calls of `cryptpack.encode`; `none` is an error. -/
def encode : Cipher → List UInt8 → Option (List UInt8)
  | .handshake, msg => (Crypt.encode none msg).toOption
  | .ckey key, msg => (Crypt.encode (some key) msg).toOption
  | .plain, msg => some msg

/-- The calls of `cryptpack.decode`; `none` is an error. -/
def decode : Cipher → List UInt8 → Option (List UInt8)
  | .handshake, msg => (Crypt.decode none msg).toOption
  | .ckey key, msg => (Crypt.decode (some key) msg).toOption
  | .plain, msg => some msg

/-- `_checkmsg` of an object to be sent: the frame, or `none` if an error is raised. -/
def checkmsgSend (levels : ℕ) (heap : Heap) (cipher : Cipher) (data : Object) : Option (List UInt8) := do
  let msg ← (MessagePack.pack levels heap data).toOption
  let msg ← encode cipher msg
  (Netpack.lpack msg).toOption

/-- `_checkmsg` of a package: the message, or `none` if an error is raised. -/
def checkmsgReceive (levels : ℕ) (cipher : Cipher) (pack : Pack) : Option Value := do
  let msg ← decode cipher (pack.buffer.take pack.size)
  (MessagePack.unpack levels msg).toOption

/-! ### The stages -/

section Stages

variable {heap : Heap} {levels levels' : ℕ} {cipher : Cipher} {msg text : List UInt8}

theorem toOption_eq_some {ε α : Type} {x : Except ε α} {a : α} :
  x.toOption = some a ↔ x = .ok a
  := by
  constructor
  · intro h
    cases x with
    | error e => cases h
    | ok b => exact congrArg Except.ok (Option.some.inj h)
  · rintro rfl
    rfl

/-- What is encrypted under a key is longer than the message. -/
theorem length_ldesencode {key : List UInt8} (h : Crypt.ldesencode key msg = .ok text) :
  msg.length < text.length
  := by
  unfold Crypt.ldesencode at h
  unfold Crypt.des_key at h
  split at h
  · cases h
  · dsimp only [bind, Except.bind] at h
    split at h
    · next hlength =>
        obtain rfl := Except.ok.inj h
        omega
    · cases h

/-- What is encrypted and fits a frame is decrypted. -/
theorem decode_of_encode {key : Option (List UInt8)} (h : Crypt.encode key msg = .ok text)
    (hlength : text.length ≤ 0xFFFF) :
  Crypt.decode key text = .ok msg
  := by
  have hlt := length_ldesencode h
  have hkey := Crypt.length_Hash (key.getD Crypt.lgethandshakekey)
  unfold Crypt.encode at h
  rw [Crypt.lhashkey, Crypt.ldesencode_eq hkey (by omega)] at h
  obtain rfl := Except.ok.inj h
  exact Crypt.ldesdecode_eq hkey (by omega)

theorem decode_encode (h : encode cipher msg = some text) (hlength : text.length ≤ 0xFFFF) :
  decode cipher text = some msg
  := by
  cases cipher with
  | handshake => exact toOption_eq_some.mpr (decode_of_encode (toOption_eq_some.mp h) hlength)
  | ckey key => exact toOption_eq_some.mpr (decode_of_encode (toOption_eq_some.mp h) hlength)
  | plain => exact h.symm

/-- A frame that is not the longest holds a payload that is read back to what was sent. -/
theorem received_sent {o : Object} {frame : List UInt8} (h : checkmsgSend levels heap cipher o = some frame)
    (hframe : frame.length ≠ 0x10002) (hle : levels ≤ levels') (fd : Fd) :
  ∃ payload v, payload.length ≤ 0xFFFF ∧ frame = Framing.encode payload ∧ Equals (trim ∘ heap) o v ∧
    checkmsgReceive levels' cipher (packOf fd payload) = some v
  := by
  obtain ⟨bs, hpack, h⟩ := Option.bind_eq_some_iff.mp h
  obtain ⟨payload, hencode, h⟩ := Option.bind_eq_some_iff.mp h
  have hlpack := toOption_eq_some.mp h
  unfold Netpack.lpack Netpack.writePack at hlpack
  dsimp only at hlpack
  split at hlpack
  · cases hlpack
  · next hshort =>
      obtain rfl := Except.ok.inj hlpack
      rw [Netpack.writeSize_append] at hframe ⊢
      change payload.length + 2 ≠ 0x10002 at hframe
      have hlength : payload.length ≤ 0xFFFF := by omega
      obtain ⟨v, hunpack, hequal⟩ := MessagePack.unpack_packed (toOption_eq_some.mp hpack) hle
      refine ⟨payload, v, hlength, rfl, hequal, ?_⟩
      unfold checkmsgReceive packOf
      dsimp only
      rw [List.take_length, decode_encode hencode hlength]
      exact toOption_eq_some.mpr hunpack

/-- The frames that were sent hold payloads, which are read back one after another. -/
theorem received_all {os : List Object} {frames : List (List UInt8)}
    (h : List.Forall₂ (fun o frame => checkmsgSend levels heap cipher o = some frame) os frames)
    (hframes : ∀ frame ∈ frames, frame.length ≠ 0x10002) (hle : levels ≤ levels') (fd : Fd) :
  ∃ (payloads : List (List UInt8)) (vs : List Value), (∀ p ∈ payloads, p.length ≤ 0xFFFF) ∧
    frames.flatten = payloads.flatMap Framing.encode ∧ List.Forall₂ (Equals (trim ∘ heap)) os vs ∧
    (payloads.map (packOf fd)).map (checkmsgReceive levels' cipher) = vs.map some
  := by
  induction h with
  | nil => exact ⟨[], [], fun _ hp => absurd hp List.not_mem_nil, rfl, .nil, rfl⟩
  | @cons o frame os frames hsend _ ih =>
      obtain ⟨payload, v, hlength, rfl, hequal, hreceive⟩ :=
        received_sent hsend (hframes frame List.mem_cons_self) hle fd
      obtain ⟨payloads, vs, hlengths, hflatten, hequals, hreceives⟩ :=
        ih fun frame hmem => hframes frame (List.mem_cons_of_mem _ hmem)
      refine ⟨payload :: payloads, v :: vs, ?_, ?_, .cons hequal hequals, ?_⟩
      · exact List.forall_mem_cons.mpr ⟨hlength, hlengths⟩
      · rw [List.flatten_cons, List.flatMap_cons, hflatten]
      · rw [List.map_cons, List.map_cons, List.map_cons, hreceive, hreceives]

end Stages

/-! ### Delivery -/

/-- Chunks arrive on any number of connections in any order.  Where those of one connection are the frames of objects
that were sent to it, with the cipher of the receiver and none of them the longest that is accepted, its packages are
read back to the objects, up to what is packed of them, in order. -/
theorem messages_delivered {levels levels' : ℕ} {heap : Heap} {cipher : Cipher} {arrivals : List (Fd × List UInt8)}
    (harrivals : ∀ x ∈ arrivals, x.2 ≠ []) {fd : Fd} {os : List Object} {frames : List (List UInt8)}
    (hsend : List.Forall₂ (fun o frame => checkmsgSend levels heap cipher o = some frame) os frames)
    (hframes : ∀ frame ∈ frames, frame.length ≠ 0x10002) (hstream : streamOf fd arrivals = frames.flatten)
    (hle : levels ≤ levels') :
  ∃ vs, List.Forall₂ (Equals (trim ∘ heap)) os vs ∧
    (packsOf fd (receiveAll arrivals).1).map (checkmsgReceive levels' cipher) = vs.map some
  := by
  obtain ⟨payloads, vs, hlengths, hflatten, hequals, hreceives⟩ := received_all hsend hframes hle fd
  refine ⟨vs, hequals, ?_⟩
  rw [(Netpack.receiveAll_holds harrivals).1 fd, hstream, hflatten, Dispatch.split_packages hlengths]
  exact hreceives

/-- Two objects that are sent encrypted on one connection, while another one is in the middle of a frame. -/
def twoConnections : List (Fd × List UInt8) :=
  [(1, [0, 8, 111, 242, 136, 51]), (2, [0, 1]), (1, [149, 197, 3, 91, 0]),
    (1, [8, 194, 126, 119, 158, 121, 113, 210, 246])]

theorem messages_delivered_twoConnections :
  ∃ vs, List.Forall₂ (Equals (trim ∘ fun _ => MessagePack.half)) [.table 0, .string [65]] vs ∧
    (packsOf 1 (receiveAll twoConnections).1).map (checkmsgReceive 2 .handshake) = vs.map some
  := by
  have htable : checkmsgSend 2 (fun _ => MessagePack.half) .handshake (.table 0) =
      some [0, 8, 111, 242, 136, 51, 149, 197, 3, 91] := by decide +kernel
  have hstring : checkmsgSend 2 (fun _ => MessagePack.half) .handshake (.string [65]) =
      some [0, 8, 194, 126, 119, 158, 121, 113, 210, 246] := by decide +kernel
  have hframes : ∀ frame ∈
      [[0, 8, 111, 242, 136, 51, 149, 197, 3, 91], [0, 8, 194, 126, 119, 158, 121, 113, 210, 246]],
      (frame : List UInt8).length ≠ 0x10002 := by decide
  exact messages_delivered (by decide) (.cons htable (.cons hstring .nil)) hframes rfl (Nat.le_refl 2)

end Wire
