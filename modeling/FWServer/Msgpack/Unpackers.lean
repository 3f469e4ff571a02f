import FWServer.Kernel.BigEndian
import FWServer.Kernel.Reader
import FWServer.Seri.Values

/-!
# The unpackers of MessagePack

`m.unpack` and `m.unpacker` of `script/common/msgpack/MessagePack53.lua`.  What is unpacked is read through a cursor,
either over a string or over a function that loads the input chunk by chunk and returns nothing when there is no more.

The unpackers are readers, as all that they do with a cursor is to take bytes from it.  Of the Lua stack is left how
many of them may call one another.
-/

namespace MessagePack

open Seri (Value)

/-- A reader of bytes, whose errors are messages. -/
abbrev Unpacker : Type → Type :=
  Reader UInt8 String

/-! ### Scalars -/

/-- The bytes of a double that equals a single; a NaN becomes a quiet one. -/
def ofSingle (bits : ℕ) : UInt64 :=
  let sign := bits / 2 ^ 31 % 2 * 2 ^ 63
  let exponent := bits / 2 ^ 23 % 2 ^ 8
  let fraction := bits % 2 ^ 23
  if exponent = 255 then
    UInt64.ofNat (sign + 2047 * 2 ^ 52 + (if fraction = 0 then 0 else (fraction ||| 2 ^ 22) * 2 ^ 29))
  else if exponent = 0 then
    if fraction = 0 then UInt64.ofNat sign
    else
      let shift := fraction.log2
      UInt64.ofNat (sign + (shift + 874) * 2 ^ 52 + (fraction - 2 ^ shift) * 2 ^ (52 - shift))
  else UInt64.ofNat (sign + (exponent + 896) * 2 ^ 52 + fraction * 2 ^ 29)

example : ofSingle 0x42280000 = 0x4045000000000000 := by decide +kernel

/-- An unsigned number of so many bytes. -/
def unpackUint (k : ℕ) : Unpacker ℕ := do
  let bs ← Reader.elements k
  return BigEndian.decode bs

/-- A signed number of so many bytes. -/
def unpackInt (k : ℕ) : Unpacker ℤ := do
  let bs ← Reader.elements k
  return (BigEndian.decode bs : ℤ).bmod (256 ^ k)

/-- `unpack_uint8` -/
def unpackUint8 : Unpacker ℕ := unpackUint 1

/-- `unpack_uint16` -/
def unpackUint16 : Unpacker ℕ := unpackUint 2

/-- `unpack_uint32` -/
def unpackUint32 : Unpacker ℕ := unpackUint 4

/-- `unpack_uint64` -/
def unpackUint64 : Unpacker ℕ := unpackUint 8

/-- `unpack_int8` -/
def unpackInt8 : Unpacker ℤ := unpackInt 1

/-- `unpack_int16` -/
def unpackInt16 : Unpacker ℤ := unpackInt 2

/-- `unpack_int32` -/
def unpackInt32 : Unpacker ℤ := unpackInt 4

/-- `unpack_int64` -/
def unpackInt64 : Unpacker ℤ := unpackInt 8

/-- A `lua_Integer`, to which a larger unsigned number is converted. -/
def integer (n : ℤ) : Value :=
  .integer (Int64.ofInt n)

/-- `unpack_float` -/
def unpackFloat : Unpacker Value := do
  let bs ← Reader.elements 4
  return .number (ofSingle (BigEndian.decode bs))

/-- `unpack_double` -/
def unpackDouble : Unpacker Value := do
  let bs ← Reader.elements 8
  return .number (UInt64.ofNat (BigEndian.decode bs))

/-- `unpack_str` -/
def unpackStr (n : ℕ) : Unpacker Value := do
  let str ← Reader.elements n
  return .string str

/-- `m.build_ext` -/
def buildExt (_tag : ℤ) (_data : List UInt8) : Value :=
  .nil

/-- `unpack_ext` -/
def unpackExt (n : ℕ) (tag : ℤ) : Unpacker Value := do
  let data ← Reader.elements n
  return buildExt tag data

/-! ### Tables -/

/-- The loop of `unpack_array`: so many elements are left, the first at the index `i`. -/
def unpackElements (cursor : Unpacker Value) : ℕ → ℕ → List (Value × Value) → Unpacker (List (Value × Value))
  | 0, _, t => return t
  | n + 1, i, t => do
      let v ← cursor
      unpackElements cursor n (i + 1) (Value.set t (.integer (Int64.ofNat i)) v)

/-- `unpack_array` -/
def unpackArray (cursor : Unpacker Value) (n : ℕ) : Unpacker Value := do
  let t ← unpackElements cursor n 1 []
  return .table t

/-- The loop of `unpack_map`: so many entries are left.  A key that is `nil` or a NaN is replaced by `m.sentinel`, which
is `nil`, and not stored. -/
def unpackEntries (cursor : Unpacker Value) : ℕ → List (Value × Value) → Unpacker (List (Value × Value))
  | 0, t => return t
  | n + 1, t => do
      let k ← cursor
      let val ← cursor
      unpackEntries cursor n (if k.isNil || k.isNaN then t else Value.set t k val)

/-- `unpack_map` -/
def unpackMap (cursor : Unpacker Value) (n : ℕ) : Unpacker Value := do
  let t ← unpackEntries cursor n []
  return .table t

/-! ### The unpackers -/

/-- The entries of `unpackers`. -/
def unpackersTable (cursor : Unpacker Value) : ℕ → Option (Unpacker Value)
  | 0xC0 => some (return .nil)
  | 0xC2 => some (return .boolean false)
  | 0xC3 => some (return .boolean true)
  | 0xC4 => some (unpackUint8 >>= unpackStr)
  | 0xC5 => some (unpackUint16 >>= unpackStr)
  | 0xC6 => some (unpackUint32 >>= unpackStr)
  | 0xC7 => some (unpackUint8 >>= fun n => unpackInt8 >>= unpackExt n)
  | 0xC8 => some (unpackUint16 >>= fun n => unpackInt8 >>= unpackExt n)
  | 0xC9 => some (unpackUint32 >>= fun n => unpackInt8 >>= unpackExt n)
  | 0xCA => some unpackFloat
  | 0xCB => some unpackDouble
  | 0xCC => some (return integer (← unpackUint8))
  | 0xCD => some (return integer (← unpackUint16))
  | 0xCE => some (return integer (← unpackUint32))
  | 0xCF => some (return integer (← unpackUint64))
  | 0xD0 => some (return integer (← unpackInt8))
  | 0xD1 => some (return integer (← unpackInt16))
  | 0xD2 => some (return integer (← unpackInt32))
  | 0xD3 => some (return integer (← unpackInt64))
  | 0xD4 => some (unpackInt8 >>= unpackExt 1)
  | 0xD5 => some (unpackInt8 >>= unpackExt 2)
  | 0xD6 => some (unpackInt8 >>= unpackExt 4)
  | 0xD7 => some (unpackInt8 >>= unpackExt 8)
  | 0xD8 => some (unpackInt8 >>= unpackExt 16)
  | 0xD9 => some (unpackUint8 >>= unpackStr)
  | 0xDA => some (unpackUint16 >>= unpackStr)
  | 0xDB => some (unpackUint32 >>= unpackStr)
  | 0xDC => some (unpackUint16 >>= unpackArray cursor)
  | 0xDD => some (unpackUint32 >>= unpackArray cursor)
  | 0xDE => some (unpackUint16 >>= unpackMap cursor)
  | 0xDF => some (unpackUint32 >>= unpackMap cursor)
  | _ => none

/-- `__index` of `unpackers`, called with the tag as `val`. -/
def unpackersIndex (cursor : Unpacker Value) (k : ℕ) : Unpacker Value :=
  if k < 0xC0 then
    if k < 0x80 then return integer k
    else if k < 0x90 then unpackMap cursor (k % 16)
    else if k < 0xA0 then unpackArray cursor (k % 16)
    else unpackStr (k % 32)
  else if k > 0xDF then return integer (k - 0x100)
  else .fail ("unpack '0x" ++ String.ofList (Nat.toDigits 16 k) ++ "' is unimplemented")

/-- `unpackers[val](c, val)` -/
def unpackers (cursor : Unpacker Value) (val : ℕ) : Unpacker Value :=
  (unpackersTable cursor val).getD (unpackersIndex cursor val)

/-- `unpack_cursor` -/
def unpackCursor : ℕ → Unpacker Value
  | 0 => .fail "stack overflow"
  | levels + 1 => do
      let val ← unpackUint8
      unpackers (unpackCursor levels) val

/-! ### Cursors -/

/-- A cursor: the string that it holds, where the next byte is and where the last one is; `ld` are the chunks still to
be loaded, if it is a cursor over a loader. -/
structure Cursor where
  s : List UInt8
  i : ℕ
  j : ℕ
  ld : Option (List (List UInt8))

/-- `cursor_string` -/
def cursorString (str : List UInt8) : Cursor :=
  ⟨str, 1, str.length, none⟩

/-- `cursor_loader` -/
def cursorLoader (ld : List (List UInt8)) : Cursor :=
  ⟨[], 1, 0, some ld⟩

/-- The loop of the `underflow` of a loader. -/
def Cursor.load (self : Cursor) (e : ℕ) : List (List UInt8) → Except String Unit × Cursor
  | [] =>
      if e > self.j then (.error "missing bytes", { self with ld := some [] })
      else (.ok (), { self with ld := some [] })
  | chunk :: ld =>
      if e > self.j then
        load { self with s := self.s ++ chunk, j := (self.s ++ chunk).length } e ld
      else (.ok (), { self with ld := some (chunk :: ld) })

/-- `underflow` -/
def Cursor.underflow (self : Cursor) (e : ℕ) : Except String Unit × Cursor :=
  match self.ld with
  | none => (.error "missing bytes", self)
  | some ld => load { self with s := self.s.drop (self.i - 1), i := 1, j := 0 } (e - self.i + 1) ld

/-- The next `n` bytes, from `i` to `e`, as every unpacker takes them. -/
def Cursor.next (c : Cursor) (n : ℕ) : Except String (List UInt8 × Cursor) :=
  let taken (c : Cursor) := ((c.s.drop (c.i - 1)).take n, { c with i := c.i + n })
  let e := c.i + n - 1
  if e > c.j then
    match c.underflow e with
    | (.ok _, c) => .ok (taken c)
    | (.error e, _) => .error e
  else .ok (taken c)

/-- `m.unpack` -/
def unpack (levels : ℕ) (s : List UInt8) : Except String Value :=
  match (unpackCursor levels).run Cursor.next (cursorString s) with
  | .ok (data, cursor) => if cursor.i ≤ cursor.j then .error "extra bytes" else .ok data
  | .error e => .error e

/-- A call of the function that `m.unpacker` returns for a string. -/
def unpackerString (levels : ℕ) (cursor : Cursor) : Option (Except String (Value × Cursor)) :=
  if cursor.i ≤ cursor.j then some ((unpackCursor levels).run Cursor.next cursor) else none

/-- A call of the function that `m.unpacker` returns for a loader. -/
def unpackerLoader (levels : ℕ) (cursor : Cursor) : Option (Except String (Value × Cursor)) :=
  let cursor := if cursor.i > cursor.j then (cursor.underflow cursor.i).2 else cursor
  if cursor.i ≤ cursor.j then some ((unpackCursor levels).run Cursor.next cursor) else none

end MessagePack
