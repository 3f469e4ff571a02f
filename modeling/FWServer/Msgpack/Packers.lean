import FWServer.Kernel.BigEndian
import FWServer.Seri.Pack

/-!
# The packers of MessagePack

`m.pack` of `script/common/msgpack/MessagePack53.lua` with the options that the file sets: `string_compat`,
`unsigned`, `double` and `without_hole`.  A packer returns what it adds to the buffer.

The objects are those of a Lua state, as `Seri` has them; metatables are left out.  Lua compares an integer and a double
by their exact values, which are multiples of `2 ^ -1074`.  Of the Lua stack is left how many packers may call one
another.
-/

namespace MessagePack

open Seri (Object Table Heap)

/-- `type(v)` -/
def typename : Object → String
  | .nil => "nil"
  | .boolean _ => "boolean"
  | .integer _ => "number"
  | .number _ => "number"
  | .lightuserdata _ => "userdata"
  | .string _ => "string"
  | .table _ => "table"
  | .other typename => typename

/-- The value of a number, in units of `2 ^ -1074`. -/
def units : Object → Option ℤ
  | .integer n => some (n.toInt * 2 ^ 1074)
  | .number bits =>
      let exponent := bits.toNat / 2 ^ 52 % 2 ^ 11
      let fraction := bits.toNat % 2 ^ 52
      let magnitude : ℕ := if exponent = 0 then fraction else (2 ^ 52 + fraction) * 2 ^ (exponent - 1)
      some (if bits.toNat / 2 ^ 63 = 1 then -magnitude else magnitude)
  | _ => none

example : units (.number 0x4045000000000000) = units (.integer 42) := by decide +kernel

/-! ### Scalars -/

/-- The tag and the length of a string, a map or an array. -/
def packLength (packer : String) (fix limit : ℕ) (tag16 tag32 : UInt8) (n : ℕ) : Except String (List UInt8) :=
  if n ≤ limit then .ok [UInt8.ofNat (fix + n)]
  else if n ≤ 0xFFFF then .ok (tag16 :: BigEndian.encode 2 n)
  else if n ≤ 0xFFFFFFFF then .ok (tag32 :: BigEndian.encode 4 n)
  else .error ("overflow in pack '" ++ packer ++ "'")

/-- `packers['boolean']` -/
def packBoolean (bool : Bool) : List UInt8 :=
  if bool then [0xC3] else [0xC2]

/-- `packers['string_compat']` -/
def packStringCompat (str : List UInt8) : Except String (List UInt8) := do
  let tag ← packLength "string_compat" 0xA0 0x1F 0xDA 0xDB str.length
  return tag ++ str

/-- `packers['unsigned']` -/
def packUnsigned (n : ℤ) : List UInt8 :=
  if n ≥ 0 then
    if n ≤ 0x7F then [UInt8.ofInt n]
    else if n ≤ 0xFF then [0xCC, UInt8.ofInt n]
    else if n ≤ 0xFFFF then 0xCD :: BigEndian.encodeInt 2 n
    else if n ≤ 0xFFFFFFFF then 0xCE :: BigEndian.encodeInt 4 n
    else 0xCF :: BigEndian.encodeInt 8 n
  else
    if n ≥ -0x20 then [UInt8.ofInt (0x100 + n)]
    else if n ≥ -0x80 then 0xD0 :: BigEndian.encodeInt 1 n
    else if n ≥ -0x8000 then 0xD1 :: BigEndian.encodeInt 2 n
    else if n ≥ -0x80000000 then 0xD2 :: BigEndian.encodeInt 4 n
    else 0xD3 :: BigEndian.encodeInt 8 n

/-- `packers['double']` -/
def packDouble (bits : UInt64) : List UInt8 :=
  0xCB :: BigEndian.encode 8 bits.toNat

/-! ### Tables -/

/-- The packers of a list of objects, one after another. -/
def packEach (pack : Object → Except String (List UInt8)) : List Object → Except String (List UInt8)
  | [] => .ok []
  | o :: os => do
      let bs ← pack o
      let more ← packEach pack os
      return bs ++ more

/-- `packers['map']` -/
def packMap (pack : Object → Except String (List UInt8)) (tbl : Table) (n : ℕ) : Except String (List UInt8) := do
  let tag ← packLength "map" 0x80 0x0F 0xDE 0xDF n
  let entries ← packEach pack (tbl.entries.flatMap fun e => [e.1, e.2])
  return tag ++ entries

/-- `packers['array']` -/
def packArray (pack : Object → Except String (List UInt8)) (tbl : Table) (n : ℕ) : Except String (List UInt8) := do
  let tag ← packLength "array" 0x90 0x0F 0xDC 0xDD n
  let elements ← packEach pack ((List.range' 1 n).map tbl.rawgeti)
  return tag ++ elements

/-- The variables of the loop over the keys of a table; `max` is in units. -/
structure Scan where
  is_map : Bool
  n : ℕ
  max : ℤ

/-- One turn of the loop over the keys. -/
def Scan.key (s : Scan) (k : Object) : Scan :=
  match units k with
  | some x =>
      if x > 0 then { s with max := if x > s.max then x else s.max, n := s.n + 1 }
      else { s with is_map := true, n := s.n + 1 }
  | none => { s with is_map := true, n := s.n + 1 }

/-- The loop over the keys. -/
def scan (tbl : Table) : Scan :=
  (tbl.entries.map Prod.fst).foldl Scan.key ⟨false, 0, 0⟩

/-- Whether the table is packed as a map: some key is no positive number, or there are holes. -/
def isMap (tbl : Table) : Bool :=
  (scan tbl).is_map || (scan tbl).max ≠ (scan tbl).n * 2 ^ 1074

/-- `packers['_table']`, of `without_hole` -/
def packTable (pack : Object → Except String (List UInt8)) (tbl : Table) : Except String (List UInt8) :=
  if isMap tbl then packMap pack tbl (scan tbl).n else packArray pack tbl (scan tbl).n

/-- `packers[type(v)](buffer, v)` -/
def packers (heap : Heap) : ℕ → Object → Except String (List UInt8)
  | 0, _ => .error "stack overflow"
  | levels + 1, v =>
      match v with
      | .nil => .ok [0xC0]
      | .boolean b => .ok (packBoolean b)
      | .integer n => .ok (packUnsigned n.toInt)
      | .number bits => .ok (packDouble bits)
      | .string s => packStringCompat s
      | .table ref => packTable (packers heap levels) (heap ref)
      | .lightuserdata _ => .error ("pack '" ++ typename v ++ "' is unimplemented")
      | .other _ => .error ("pack '" ++ typename v ++ "' is unimplemented")

/-- `m.pack` -/
def pack (levels : ℕ) (heap : Heap) (data : Object) : Except String (List UInt8) :=
  packers heap levels data

end MessagePack
