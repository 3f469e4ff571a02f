import FWServer.Seri.Pack

/-!
# Unpacking

`luaseri_unpack` of `lualib-src/lua-seri.c`: the values of a buffer are read one after another until the end
of the buffer.  A read block counts the bytes that are left in an `int`; what is read of the buffer is
recorded in `reads`, as ranges of a position and a size.

Values nest as deep as the buffer says, so the reading of one value is given a number of levels, and the
loops over keys a number of rounds.  `timeout` is the error that none of it suffices; it is no error of the
source.  Whether `luaL_checkstack` finds room is a parameter, as in packing.
-/

namespace Seri

open LittleEndian (toInt)

/-! ### The read block -/

/-- `struct read_block`, and the ranges of the buffer that have been read. -/
structure ReadBlock where
  buffer : List UInt8
  len : ℤ
  ptr : ℤ
  reads : List (ℤ × ℤ)

/-- The errors that unpacking raises: the two of the library, those of `lua_pushlstring` for a size that
was negative and of `lua_rawset` for a key that is a NaN, and the one of the model. -/
inductive UnpackError where
  | invalidStream (len : ℤ) (line : ℕ)
  | stackOverflow
  | tooBig
  | nanKey
  | timeout
  deriving DecidableEq

namespace UnpackError

/-- The text of an error. -/
def message : UnpackError → String
  | .invalidStream len line =>
      "Invalid serialize stream " ++ toString len ++ " (line:" ++ toString line ++ ")"
  | .stackOverflow => "stack overflow"
  | .tooBig => "memory allocation error: block too big"
  | .nanKey => "table index is NaN"
  | .timeout => "timeout"

/-- The error for bytes that are no values. -/
def Invalid : UnpackError → Prop
  | .invalidStream _ _ => True
  | _ => False

end UnpackError

/-- What reads from a buffer. -/
abbrev Reader : Type → Type :=
  EStateM UnpackError ReadBlock

/-- What is in the buffer from `p` on. -/
def bytesAt (buffer : List UInt8) (p n : ℤ) : List UInt8 :=
  (buffer.drop p.toNat).take n.toNat

/-- `rb_read` -/
def rbRead (sz : ℤ) : Reader (Option ℤ) := do
  let rb ← get
  if rb.len < sz then pure none
  else
    set { rb with ptr := rb.ptr + sz, len := rb.len - sz, reads := rb.reads ++ [(rb.ptr, sz)] }
    pure (some rb.ptr)

/-- `invalid_stream_line` -/
def invalidStream {α : Type} (line : ℕ) : Reader α := do
  let rb ← get
  throw (.invalidStream rb.len line)

/-- The bytes that `rb_read` gives, or an invalid stream at the line given. -/
def readBytes (sz : ℤ) (line : ℕ) : Reader (List UInt8) := do
  match ← rbRead sz with
  | none => invalidStream line
  | some p =>
      let rb ← get
      pure (bytesAt rb.buffer p sz)

/-- One byte. -/
def readByte (line : ℕ) : Reader UInt8 := do
  let bs ← readBytes 1 line
  pure (bs.headD 0)

/-! ### Values that are not tables -/

/-- `type & 7` -/
def typeOf (type : UInt8) : ℕ :=
  (type &&& 7).toNat

/-- `type >> 3` -/
def cookieOf (type : UInt8) : ℕ :=
  (type >>> 3).toNat

/-- `get_integer` -/
def getInteger (cookie : ℕ) : Reader ℤ := do
  match cookie with
  | TYPE_NUMBER_ZERO => pure 0
  | TYPE_NUMBER_BYTE =>
      let n ← readBytes 1 368
      pure (LittleEndian.decode n)
  | TYPE_NUMBER_WORD =>
      let n ← readBytes 2 376
      pure (LittleEndian.decode n)
  | TYPE_NUMBER_DWORD =>
      let n ← readBytes 4 384
      pure ((LittleEndian.decode n : ℤ).bmod (2 ^ 32))
  | TYPE_NUMBER_QWORD =>
      let n ← readBytes 8 392
      pure ((LittleEndian.decode n : ℤ).bmod (2 ^ 64))
  | _ => invalidStream 397

/-- `get_real` -/
def getReal : Reader UInt64 := do
  let n ← readBytes 8 407
  pure (UInt64.ofNat (LittleEndian.decode n))

/-- `get_pointer` -/
def getPointer : Reader UInt64 := do
  let v ← readBytes 8 417
  pure (UInt64.ofNat (LittleEndian.decode v))

/-- `get_buffer`; `lua_pushlstring` refuses the size that a negative one is converted to. -/
def getBuffer (len : ℤ) : Reader Value := do
  let p ← readBytes len 427
  if len < 0 then throw .tooBig else pure (.string p)

/-! ### Tables -/

/-- `lua_rawset` -/
def rawset (entries : List (Value × Value)) (key value : Value) : Reader (List (Value × Value)) :=
  if key.isNaN then throw .nanKey else pure (Value.set entries key value)

/-- The loop over the array part, where `one` reads an element: `k` elements from `i` on. -/
def unpackArray (one : Reader Value) :
    ℕ → ℕ → List (Value × Value) → Reader (List (Value × Value))
  | 0, _, entries => pure entries
  | k + 1, i, entries => do
      let v ← one
      unpackArray one k (i + 1) (Value.set entries (.integer (Int64.ofNat i)) v)

/-- The loop over the other entries, where `key` and `value` read one of them. -/
def unpackHash (key value : Reader Value) :
    ℕ → List (Value × Value) → Reader (List (Value × Value))
  | 0, _ => throw .timeout
  | n + 1, entries => do
      let k ← key
      if k.isNil then pure entries
      else
        let v ← value
        let entries ← rawset entries k v
        unpackHash key value n entries

section

variable (room : ℕ → Bool)

/-- `luaL_checkstack` -/
def checkstack (top : ℕ) : Reader Unit :=
  if room top then pure () else throw .stackOverflow

/-- The size of the array part, which follows the cookie if it is large. -/
def arraySize (array_size : ℤ) : Reader ℤ := do
  if array_size = MAX_COOKIE - 1 then
    let type ← readByte 440
    let cookie := cookieOf type
    if typeOf type ≠ TYPE_NUMBER ∨ cookie = TYPE_NUMBER_REAL then invalidStream 445
    else
      let n ← getInteger cookie
      pure (toInt n)
  else pure array_size

/-- `unpack_table`, where `one` is `unpack_one` at the height given of the stack. -/
def unpackTable (one : ℕ → Reader Value) (top : ℕ) (array_size : ℤ) : Reader Value := do
  let array_size ← arraySize array_size
  checkstack room top
  let entries ← unpackArray (one (top + 1)) array_size.toNat 1 []
  let rb ← get
  let entries ← unpackHash (one (top + 1)) (one (top + 2)) (rb.len.toNat + 1) entries
  pure (.table entries)

/-- `push_value` -/
def pushValue (one : ℕ → Reader Value) (top type cookie : ℕ) : Reader Value := do
  match type with
  | TYPE_NIL => pure .nil
  | TYPE_BOOLEAN => pure (.boolean (cookie ≠ 0))
  | TYPE_NUMBER =>
      if cookie = TYPE_NUMBER_REAL then
        let n ← getReal
        pure (.number n)
      else
        let n ← getInteger cookie
        pure (.integer (Int64.ofInt n))
  | TYPE_USERDATA =>
      let p ← getPointer
      pure (.lightuserdata p)
  | TYPE_SHORT_STRING => getBuffer cookie
  | TYPE_LONG_STRING =>
      if cookie = 2 then
        let n ← readBytes 2 493
        getBuffer (LittleEndian.decode n)
      else if cookie ≠ 4 then invalidStream 500
      else
        let n ← readBytes 4 504
        getBuffer (toInt (LittleEndian.decode n))
  | TYPE_TABLE => unpackTable room one top cookie
  | _ => invalidStream 517

/-- `unpack_one`, through so many levels of tables. -/
def unpackOne : ℕ → ℕ → Reader Value
  | 0, _ => throw .timeout
  | level + 1, top => do
      let type ← readByte 528
      pushValue room (unpackOne level) top (typeOf type) (cookieOf type)

/-! ### The whole buffer -/

/-- The loop of `luaseri_unpack`, with `vs` on the stack above `base`. -/
def unpackAll (level base : ℕ) : ℕ → List Value → Reader (List Value)
  | 0, _ => throw .timeout
  | n + 1, vs => do
      let top := base + vs.length
      (if vs.length % 8 = 7 then checkstack room top else pure ())
      match ← rbRead 1 with
      | none => pure vs
      | some p =>
          let rb ← get
          let type := (bytesAt rb.buffer p 1).headD 0
          let v ← pushValue room (unpackOne room level) top (typeOf type) (cookieOf type)
          unpackAll level base n (vs ++ [v])

/-- `luaseri_unpack` of a buffer, with a stack of height `base` once all but the buffer is taken off. -/
def unpack (base : ℕ) (buffer : List UInt8) : EStateM.Result UnpackError ReadBlock (List Value) :=
  let len := toInt buffer.length
  let rb : ReadBlock := ⟨buffer, len, 0, []⟩
  if len = 0 then .ok [] rb
  else unpackAll room (len.toNat + 1) base (len.toNat + 1) [] rb

end

end Seri
