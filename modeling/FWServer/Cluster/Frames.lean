import FWServer.Kernel.Framing
import FWServer.Kernel.LittleEndian

/-!
# The frames of the cluster

`lualib-src/lua-cluster.c`, the library `cluster.core`: requests and responses are packed into frames, which
are preceded by their size in two bytes, and unpacked from them.  A message that is too large for one frame is
sent as a frame with its size and the frames of its parts; the receiver keeps the size and the parts in a
table, which `concat` makes one message again.

A buffer is the list of what is put in it, one piece after another.  A message given by a pointer and a size
is the list of its bytes, and what is not there, `nil` or `false`, is `none` or `false`.
-/

namespace Cluster.Core

open LittleEndian (toInt)

abbrev MULTI_PART : ℕ := 0x8000

/-- The `uint32_t` that a number is converted to. -/
def uint32 (n : ℤ) : ℕ :=
  (n % 2 ^ 32).toNat

/-- `fill_uint32` -/
def fillUint32 (n : ℕ) : List UInt8 :=
  LittleEndian.encode 4 n

/-- `unpack_uint32` of what begins at `i`. -/
def unpackUint32 (buf : List UInt8) (i : ℕ) : ℕ :=
  LittleEndian.decode ((buf.drop i).take 4)

/-- The address of a service: its handle or its name. -/
inductive Address where
  | number (n : ℤ)
  | name (s : List UInt8)
  deriving DecidableEq

/-! ### Packing requests -/

/-- The errors that packing raises, and the assertion of `fill_header`. -/
inductive PackError where
  | invalidMessage
  | invalidSession (session : ℤ)
  | nameTooLong (name : List UInt8)
  | assertion
  deriving DecidableEq

/-- `fill_header` -/
def fillHeader (sz : ℕ) : Except PackError (List UInt8) :=
  if sz < 0x10000 then pure [UInt8.ofNat (sz / 256), UInt8.ofNat sz] else throw .assertion

/-- A frame: the header for the size given and the pieces of the body. -/
def frame (sz : ℕ) (pieces : List (List UInt8)) : Except PackError (List UInt8) := do
  let header ← fillHeader sz
  return header ++ pieces.flatten

/-- The number of parts of a large message. -/
def parts (sz : ℕ) : ℕ :=
  (sz - 1) / MULTI_PART + 1

/-- `packreq_number`: the frame, and the number of parts that come after it. -/
def packreqNumber (addr session : ℤ) (msg : List UInt8) (is_push : Bool) :
    Except PackError (List UInt8 × ℕ) := do
  let sz := msg.length
  if sz < MULTI_PART then
    let buf ← frame (sz + 9) [[0], fillUint32 (uint32 addr),
      fillUint32 (if is_push then 0 else uint32 session), msg]
    return (buf, 0)
  else
    let buf ← frame 13 [[if is_push then 0x41 else 1], fillUint32 (uint32 addr),
      fillUint32 (uint32 session), fillUint32 sz]
    return (buf, parts sz)

/-- `packreq_string` -/
def packreqString (name : List UInt8) (session : ℤ) (msg : List UInt8) (is_push : Bool) :
    Except PackError (List UInt8 × ℕ) := do
  let sz := msg.length
  let namelen := name.length
  if namelen < 1 ∨ namelen > 255 then throw (.nameTooLong name)
  else if sz < MULTI_PART then
    let buf ← frame (sz + 6 + namelen) [[0x80], [UInt8.ofNat namelen], name,
      fillUint32 (if is_push then 0 else uint32 session), msg]
    return (buf, 0)
  else
    let buf ← frame (10 + namelen) [[if is_push then 0xc1 else 0x81], [UInt8.ofNat namelen], name,
      fillUint32 (uint32 session), fillUint32 sz]
    return (buf, parts sz)

/-- The frame of a request, by the type of the address, and the number of parts that come after it. -/
def firstFrame (addr : Address) (session : ℤ) (msg : List UInt8) (is_push : Bool) :
    Except PackError (List UInt8 × ℕ) :=
  match addr with
  | .number n => packreqNumber n session msg is_push
  | .name s => packreqString s session msg is_push

/-- The loop over `n` parts of a large message, with the message from `ptr` on: each part, and whether
another one follows. -/
def splitParts : ℕ → List UInt8 → List (Bool × List UInt8)
  | 0, _ => []
  | n + 1, ptr =>
      if ptr.length > MULTI_PART then
        (true, ptr.take MULTI_PART) :: splitParts n (ptr.drop MULTI_PART)
      else (false, ptr) :: splitParts n []

/-- `packreq_multi` -/
def packreqMulti (part : ℕ) (session : ℤ) (msg : List UInt8) :
    Except PackError (List (List UInt8)) :=
  (splitParts part msg).mapM fun (more, s) =>
    frame (s.length + 5) [[if more then 2 else 3], fillUint32 (uint32 session), s]

/-- What packing a request returns: its frame, the next session, and the frames of its parts. -/
structure PackedRequest where
  request : List UInt8
  next_session : ℤ
  padding : Option (List (List UInt8))

/-- `packrequest`, where a message that is not there is a null pointer. -/
def packrequest (addr : Address) (session : ℤ) (msg : Option (List UInt8)) (is_push : Bool) :
    Except PackError PackedRequest := do
  match msg with
  | none => throw .invalidMessage
  | some msg =>
      let msg := msg.take (uint32 msg.length)
      let session := toInt session
      if session ≤ 0 then throw (.invalidSession session)
      else
        let (request, multipak) ← firstFrame addr session msg is_push
        let next_session := if toInt (session + 1) < 0 then 1 else session + 1
        if multipak ≠ 0 then
          let padding ← packreqMulti multipak session msg
          return ⟨request, next_session, some padding⟩
        else return ⟨request, next_session, none⟩

/-! ### Unpacking requests -/

/-- The errors that unpacking raises. -/
inductive UnpackError where
  | size (sz : ℤ)
  | multiSize (sz : ℤ)
  | part
  | type (t : ℤ)
  deriving DecidableEq

/-- The text of an error. -/
def UnpackError.message : UnpackError → String
  | .size sz => "Invalid cluster message (size=" ++ toString sz ++ ")"
  | .multiSize sz => "Invalid cluster message size " ++ toString sz ++ " (multi req must be 13)"
  | .part => "Invalid cluster multi part message"
  | .type t => "Invalid req package type " ++ toString t

/-- A message or a part of it, or the size of a message whose parts follow. -/
inductive Data where
  | bytes (s : List UInt8)
  | size (n : ℕ)
  deriving DecidableEq

/-- What unpacking a request returns. -/
structure Request where
  addr : Option Address
  session : ℕ
  msg : Data
  padding : Bool
  is_push : Bool
  deriving DecidableEq

/-- `unpackreq_number` -/
def unpackreqNumber (buf : List UInt8) (sz : ℤ) : Except UnpackError Request :=
  if sz < 9 then throw (.size sz)
  else
    let session := unpackUint32 buf 5
    pure ⟨some (.number (unpackUint32 buf 1)), session, .bytes ((buf.drop 9).take (sz - 9).toNat),
      false, session = 0⟩

/-- `unpackmreq_number` -/
def unpackmreqNumber (buf : List UInt8) (sz : ℤ) (is_push : Bool) : Except UnpackError Request :=
  if sz ≠ 13 then throw (.multiSize sz)
  else pure ⟨some (.number (unpackUint32 buf 1)), unpackUint32 buf 5, .size (unpackUint32 buf 9), true,
    is_push⟩

/-- `unpackmreq_part` -/
def unpackmreqPart (buf : List UInt8) (sz : ℤ) : Except UnpackError Request :=
  if sz < 5 then throw .part
  else pure ⟨none, unpackUint32 buf 1, .bytes ((buf.drop 5).take (sz - 5).toNat),
    (buf.headD 0 = 2), false⟩

/-- `unpackreq_string` -/
def unpackreqString (buf : List UInt8) (sz : ℤ) : Except UnpackError Request :=
  if sz < 2 then throw (.size sz)
  else
    let namesz := ((buf.drop 1).headD 0).toNat
    if sz < namesz + 6 then throw (.size sz)
    else
      let session := unpackUint32 buf (namesz + 2)
      pure ⟨some (.name ((buf.drop 2).take namesz)), session,
        .bytes ((buf.drop (2 + namesz + 4)).take (sz - namesz - 6).toNat), false, session = 0⟩

/-- `unpackmreq_string` -/
def unpackmreqString (buf : List UInt8) (sz : ℤ) (is_push : Bool) : Except UnpackError Request :=
  if sz < 2 then throw (.size sz)
  else
    let namesz := ((buf.drop 1).headD 0).toNat
    if sz < namesz + 10 then throw (.size sz)
    else pure ⟨some (.name ((buf.drop 2).take namesz)), unpackUint32 buf (namesz + 2),
      .size (unpackUint32 buf (namesz + 6)), true, is_push⟩

/-- `unpackrequest`; what stands after the last byte of a string is a zero. -/
def unpackrequest (msg : List UInt8) : Except UnpackError Request :=
  let sz := toInt msg.length
  let type := msg.headD 0
  if type = 0 then unpackreqNumber msg sz
  else if type = 1 then unpackmreqNumber msg sz false
  else if type = 0x41 then unpackmreqNumber msg sz true
  else if type = 2 ∨ type = 3 then unpackmreqPart msg sz
  else if type = 0x80 then unpackreqString msg sz
  else if type = 0x81 then unpackmreqString msg sz false
  else if type = 0xc1 then unpackmreqString msg sz true
  else throw (.type type.toInt8.toInt)

/-! ### Responses -/

/-- What packing a response returns: one frame, or a table of frames. -/
inductive PackedResponse where
  | string (response : List UInt8)
  | table (responses : List (List UInt8))

/-- `packresponse` -/
def packresponse (session : ℤ) (ok : Bool) (msg : List UInt8) : Except PackError PackedResponse := do
  let sz := msg.length
  if ok ∧ sz > MULTI_PART then
    let first ← frame 9 [fillUint32 (uint32 session), [2], fillUint32 (uint32 sz)]
    let rest ← (splitParts (parts sz) msg).mapM fun (more, s) =>
      frame (s.length + 5) [fillUint32 (uint32 session), [if more then 3 else 4], s]
    return .table (first :: rest)
  else
    let msg := if sz > MULTI_PART then msg.take MULTI_PART else msg
    let response ← frame (msg.length + 5) [fillUint32 (uint32 session), [if ok then 1 else 0], msg]
    return .string response

/-- What unpacking a response returns. -/
structure Response where
  session : ℕ
  ok : Bool
  msg : Data
  padding : Bool
  deriving DecidableEq

/-- `unpackresponse` -/
def unpackresponse (buf : List UInt8) : Option Response :=
  let sz := buf.length
  if sz < 5 then none
  else
    let session := unpackUint32 buf 0
    let type := (buf.drop 4).headD 0
    if type = 0 then some ⟨session, false, .bytes (buf.drop 5), false⟩
    else if type = 1 ∨ type = 4 then some ⟨session, true, .bytes (buf.drop 5), false⟩
    else if type = 2 then
      if sz ≠ 9 then none else some ⟨session, true, .size (unpackUint32 buf 5), true⟩
    else if type = 3 then some ⟨session, true, .bytes (buf.drop 5), true⟩
    else none

/-! ### Putting parts together -/

/-- The loop of `concat` over the table, up to the first element that is no string, with what has been copied
so far.  A sum of sizes is compared with the size that is expected as numbers without sign. -/
def concatParts (sz : ℤ) : List Data → List UInt8 → Option (List UInt8)
  | .bytes str :: rest, buff =>
      if (str.length + buff.length : ℤ) > sz % 2 ^ 64 then none else concatParts sz rest (buff ++ str)
  | _, buff => if (buff.length : ℤ) ≠ sz then none else some buff

/-- `concat` of a table. -/
def concat : List Data → Option (List UInt8)
  | .size n :: rest => concatParts (toInt n) rest []
  | _ => none

end Cluster.Core
