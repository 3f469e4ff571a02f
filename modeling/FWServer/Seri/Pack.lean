import FWServer.Kernel.Blocks
import FWServer.Seri.Values
import Mathlib.Data.List.Range

/-!
# Packing

`luaseri_pack` of `lualib-src/lua-seri.c`: a list of objects is written to a list of blocks, which are then
copied to one buffer.  A table is written as its array part, which is as long as `lua_rawlen` says, and the
entries that are not in it, ended by a `nil`.

Numbers are stored as they lie in memory, in little-endian order.  Whether `luaL_checkstack` finds room on the
Lua stack, at the height given, is a parameter; memory is taken not to run out.
-/

namespace Seri

open LittleEndian (toInt)

/-! ### Constants -/

@[match_pattern] abbrev TYPE_NIL : ℕ := 0
@[match_pattern] abbrev TYPE_BOOLEAN : ℕ := 1
@[match_pattern] abbrev TYPE_NUMBER : ℕ := 2
@[match_pattern] abbrev TYPE_NUMBER_ZERO : ℕ := 0
@[match_pattern] abbrev TYPE_NUMBER_BYTE : ℕ := 1
@[match_pattern] abbrev TYPE_NUMBER_WORD : ℕ := 2
@[match_pattern] abbrev TYPE_NUMBER_DWORD : ℕ := 4
@[match_pattern] abbrev TYPE_NUMBER_QWORD : ℕ := 6
@[match_pattern] abbrev TYPE_NUMBER_REAL : ℕ := 8
@[match_pattern] abbrev TYPE_USERDATA : ℕ := 3
@[match_pattern] abbrev TYPE_SHORT_STRING : ℕ := 4
@[match_pattern] abbrev TYPE_LONG_STRING : ℕ := 5
@[match_pattern] abbrev TYPE_TABLE : ℕ := 6

abbrev MAX_COOKIE : ℕ := 32
abbrev BLOCK_SIZE : ℕ := 128
abbrev MAX_DEPTH : ℕ := 32

/-- `COMBINE_TYPE(t, v)`, stored in a byte; `t` has three bits. -/
def combineType (t : ℕ) (v : ℤ) : UInt8 :=
  UInt8.ofInt (t + v * 2 ^ 3)

/-! ### The write block -/

/-- `struct write_block`: the blocks, the last of which is the current one, and the number of bytes
written. -/
structure WriteBlock where
  blocks : Blocks UInt8 BLOCK_SIZE
  len : ℕ
  len_eq : len = blocks.contents.length

namespace WriteBlock

/-- `wb_init` -/
def init : WriteBlock :=
  ⟨Blocks.empty, 0, rfl⟩

/-- What has been written. -/
def contents (wb : WriteBlock) : List UInt8 :=
  wb.blocks.contents

/-- `wb_push` -/
def push (wb : WriteBlock) (buf : List UInt8) : WriteBlock where
  blocks := wb.blocks.push buf
  len := wb.len + buf.length
  len_eq := by rw [Blocks.contents_push, List.length_append, wb.len_eq]

@[simp]
theorem contents_init :
  init.contents = []
  := rfl

@[simp]
theorem contents_push (wb : WriteBlock) (buf : List UInt8) :
  (wb.push buf).contents = wb.contents ++ buf
  := Blocks.contents_push wb.blocks buf

end WriteBlock

/-- `wb_nil` -/
def wbNil (wb : WriteBlock) : WriteBlock :=
  wb.push [combineType TYPE_NIL 0]

/-- `wb_boolean` -/
def wbBoolean (wb : WriteBlock) (boolean : Bool) : WriteBlock :=
  wb.push [combineType TYPE_BOOLEAN (if boolean then 1 else 0)]

/-- `wb_integer` -/
def wbInteger (wb : WriteBlock) (v : ℤ) : WriteBlock :=
  if v = 0 then wb.push [combineType TYPE_NUMBER TYPE_NUMBER_ZERO]
  else if v ≠ toInt v then
    (wb.push [combineType TYPE_NUMBER TYPE_NUMBER_QWORD]).push (LittleEndian.encodeInt 8 v)
  else if v < 0 then
    (wb.push [combineType TYPE_NUMBER TYPE_NUMBER_DWORD]).push (LittleEndian.encodeInt 4 v)
  else if v < 0x100 then
    (wb.push [combineType TYPE_NUMBER TYPE_NUMBER_BYTE]).push (LittleEndian.encodeInt 1 v)
  else if v < 0x10000 then
    (wb.push [combineType TYPE_NUMBER TYPE_NUMBER_WORD]).push (LittleEndian.encodeInt 2 v)
  else
    (wb.push [combineType TYPE_NUMBER TYPE_NUMBER_DWORD]).push (LittleEndian.encodeInt 4 v)

/-- `wb_real` -/
def wbReal (wb : WriteBlock) (v : UInt64) : WriteBlock :=
  (wb.push [combineType TYPE_NUMBER TYPE_NUMBER_REAL]).push (LittleEndian.encode 8 v.toNat)

/-- `wb_pointer` -/
def wbPointer (wb : WriteBlock) (v : UInt64) : WriteBlock :=
  (wb.push [combineType TYPE_USERDATA 0]).push (LittleEndian.encode 8 v.toNat)

/-- `wb_string` -/
def wbString (wb : WriteBlock) (str : List UInt8) (len : ℤ) : WriteBlock :=
  if len < MAX_COOKIE then
    let wb := wb.push [combineType TYPE_SHORT_STRING len]
    if len > 0 then wb.push (str.take len.toNat) else wb
  else
    let wb :=
      if len < 0x10000 then
        (wb.push [combineType TYPE_LONG_STRING 2]).push (LittleEndian.encodeInt 2 len)
      else
        (wb.push [combineType TYPE_LONG_STRING 4]).push (LittleEndian.encodeInt 4 len)
    wb.push (str.take len.toNat)

/-! ### Packing one object -/

/-- The errors that packing raises. -/
inductive PackError where
  | tooDepth
  | unsupport (typename : String)
  | stackOverflow
  deriving DecidableEq

/-- The text of an error. -/
def PackError.message : PackError → String
  | .tooDepth => "serialize can't pack too depth table"
  | .unsupport typename => "Unsupport type " ++ typename ++ " to serialize"
  | .stackOverflow => "stack overflow"

/-- A key that is written with the array part: an integer from 1 to the size of the array. -/
def Object.inArray (array_size : ℕ) : Object → Bool
  | .integer x => 0 < x.toInt ∧ x.toInt ≤ array_size
  | _ => false

/-- `lua_rawgeti` -/
def Table.rawgeti (t : Table) (i : ℕ) : Object :=
  lookup t.entries (.integer (Int64.ofNat i))

/-- The beginning of `wb_table_array`: the head of a table. -/
def wbTableHead (wb : WriteBlock) (array_size : ℕ) : WriteBlock :=
  if array_size ≥ MAX_COOKIE - 1 then
    wbInteger (wb.push [combineType TYPE_TABLE (MAX_COOKIE - 1)]) array_size
  else wb.push [combineType TYPE_TABLE array_size]

section

variable (one : ℕ → Object → WriteBlock → Except PackError WriteBlock)

/-- `wb_table_array`, where `one` packs an element at the height given of the stack. -/
def wbTableArray (t : Table) (top : ℕ) (wb : WriteBlock) : Except PackError WriteBlock :=
  let array_size := t.rawlen
  let wb := wbTableHead wb array_size
  (List.range' 1 array_size).foldlM (fun wb i => one (top + 1) (t.rawgeti i) wb) wb

/-- `wb_table_hash`, where `one` packs a key or a value. -/
def wbTableHash (t : Table) (top array_size : ℕ) (wb : WriteBlock) :
    Except PackError WriteBlock := do
  let pair wb (e : Object × Object) :=
    if e.1.inArray array_size then pure wb
    else do
      let wb ← one (top + 2) e.1 wb
      one (top + 2) e.2 wb
  let wb ← t.entries.foldlM pair wb
  return wbNil wb

/-- `wb_table` of a table without `__pairs`. -/
def wbTable (room : ℕ → Bool) (t : Table) (top : ℕ) (wb : WriteBlock) :
    Except PackError WriteBlock := do
  if room top then
    let wb ← wbTableArray one t top wb
    wbTableHash one t top t.rawlen wb
  else throw .stackOverflow

end

variable (room : ℕ → Bool) (heap : Heap)

/-- `pack_one` -/
def packOne (depth top : ℕ) (o : Object) (wb : WriteBlock) : Except PackError WriteBlock :=
  if _h : depth > MAX_DEPTH then throw .tooDepth
  else
    match o with
    | .nil => pure (wbNil wb)
    | .integer n => pure (wbInteger wb n.toInt)
    | .number bits => pure (wbReal wb bits)
    | .boolean b => pure (wbBoolean wb b)
    | .string s => pure (wbString wb s (toInt s.length))
    | .lightuserdata p => pure (wbPointer wb p)
    | .table ref => wbTable (fun top o wb => packOne (depth + 1) top o wb) room (heap ref) top wb
    | .other typename => throw (.unsupport typename)
termination_by MAX_DEPTH + 1 - depth

/-- `pack_from` -/
def packFrom (top : ℕ) (vs : List Object) (wb : WriteBlock) : Except PackError WriteBlock :=
  vs.foldlM (fun wb v => packOne room heap 0 top v wb) wb

/-- `seri` -/
def seri (wb : WriteBlock) : List UInt8 :=
  Blocks.collect BLOCK_SIZE wb.blocks.blocks wb.len

/-- `luaseri_pack`, called with the objects on a stack of height `top`. -/
def pack (top : ℕ) (vs : List Object) : Except PackError (List UInt8) := do
  let wb ← packFrom room heap top vs .init
  return seri wb

theorem seri_eq (wb : WriteBlock) :
  seri wb = wb.contents
  := by
  rw [seri, wb.len_eq]
  exact Blocks.collect_blocks wb.blocks

end Seri
