import FWServer.Kernel.LittleEndian
import Mathlib.Data.List.Basic
import Mathlib.Data.List.Forall2
import Mathlib.Data.List.Nodup
import Mathlib.Data.List.Perm.Basic

/-!
# Serialised values

The two sides of `lualib-src/lua-seri.c`.  What is packed is an `Object` of the Lua state, whose tables are
references to a heap, so that tables may be shared or contain themselves.  What is unpacked is a `Value`: all
tables are new, hence a value is a tree.

`Equals` is the equality of the two: numbers keep their subtype, and a table equals one with equal keys and
values in any order.

A `number` is the eight bytes of a double.  Metatables are left out, and with them `__pairs`.
-/

namespace Seri

/-! ### Doubles -/

/-- The bytes of a double that is not a number. -/
def isNaN (bits : UInt64) : Bool :=
  bits.toNat / 2 ^ 52 % 2 ^ 11 = 2047 ∧ bits.toNat % 2 ^ 52 ≠ 0

/-- `luaV_tointeger` of a double: the integer it equals, if that is a `lua_Integer`. -/
def tointeger (bits : UInt64) : Option Int64 :=
  let exponent := bits.toNat / 2 ^ 52 % 2 ^ 11
  let fraction := bits.toNat % 2 ^ 52
  let signed (n : ℕ) : ℤ := if bits.toNat / 2 ^ 63 = 1 then -n else n
  let fits (n : ℤ) : Option Int64 :=
    if -2 ^ 63 ≤ n ∧ n < 2 ^ 63 then some (Int64.ofInt n) else none
  if exponent = 2047 then none
  else if exponent = 0 then if fraction = 0 then some 0 else none
  else
    let significand := 2 ^ 52 + fraction
    if exponent ≥ 1075 then fits (signed (significand * 2 ^ (exponent - 1075)))
    else if significand % 2 ^ (1075 - exponent) = 0 then
      fits (signed (significand / 2 ^ (1075 - exponent)))
    else none

example : tointeger 0x4045000000000000 = some 42 := by decide +kernel

/-! ### Objects and tables -/

/-- What may lie on the Lua stack. -/
inductive Object where
  | nil
  | boolean (b : Bool)
  | integer (n : Int64)
  | number (bits : UInt64)
  | lightuserdata (p : UInt64)
  | string (s : List UInt8)
  | table (ref : ℕ)
  | other (typename : String)
  deriving DecidableEq

/-- What may be the key of a table: not `nil` and not a NaN, and doubles that are integers are stored as
integers. -/
def Object.IsKey : Object → Prop
  | .nil => False
  | .number bits => isNaN bits = false ∧ tointeger bits = none
  | _ => True

/-- The value of a key in a list of entries, or `nil`. -/
def lookup (entries : List (Object × Object)) (key : Object) : Object :=
  match entries.find? fun e => e.1 = key with
  | some e => e.2
  | none => .nil

/-- A table: its entries in the order of `lua_next`, and what `lua_rawlen` gives for it, which is a border
that fits an `int`. -/
structure Table where
  entries : List (Object × Object)
  rawlen : ℕ
  keys_nodup : (entries.map Prod.fst).Nodup
  isKey : ∀ e ∈ entries, e.1.IsKey
  value_ne_nil : ∀ e ∈ entries, e.2 ≠ .nil
  rawlen_lt : rawlen < 2 ^ 31
  border : rawlen = 0 ∨ lookup entries (.integer (Int64.ofNat rawlen)) ≠ .nil
  border_succ : lookup entries (.integer (Int64.ofNat (rawlen + 1))) = .nil

/-- A table may have no elements. -/
theorem zero_rawlen_lt :
  0 < 2 ^ 31
  := Nat.two_pow_pos 31

/-- The tables of a Lua state. -/
abbrev Heap : Type :=
  ℕ → Table

/-- The object `w` lies inside `k` tables of `v`. -/
inductive Inside (heap : Heap) : ℕ → Object → Object → Prop
  | here (v : Object) : Inside heap 0 v v
  | key {k : ℕ} {ref : ℕ} {e : Object × Object} {w : Object} (he : e ∈ (heap ref).entries)
      (h : Inside heap k e.1 w) : Inside heap (k + 1) (.table ref) w
  | value {k : ℕ} {ref : ℕ} {e : Object × Object} {w : Object} (he : e ∈ (heap ref).entries)
      (h : Inside heap k e.2 w) : Inside heap (k + 1) (.table ref) w

/-- The types that can be packed, and strings up to the size of an `int`. -/
def Object.Serialisable : Object → Prop
  | .string s => s.length < 2 ^ 31
  | .other _ => False
  | _ => True

/-! ### Values -/

/-- What is unpacked. -/
inductive Value where
  | nil
  | boolean (b : Bool)
  | integer (n : Int64)
  | number (bits : UInt64)
  | lightuserdata (p : UInt64)
  | string (s : List UInt8)
  | table (entries : List (Value × Value))

namespace Value

def isNil : Value → Bool
  | .nil => true
  | _ => false

def isNaN : Value → Bool
  | .number bits => Seri.isNaN bits
  | _ => false

/-- A key as a table stores it. -/
def normal : Value → Value
  | .number bits =>
      match tointeger bits with
      | some n => .integer n
      | none => .number bits
  | v => v

/-- Whether two stored keys are the same.  A table is the same as itself only, and no table is unpacked
twice. -/
def same : Value → Value → Bool
  | .nil, .nil => true
  | .boolean a, .boolean b => a == b
  | .integer a, .integer b => a == b
  | .number a, .number b => a == b
  | .lightuserdata a, .lightuserdata b => a == b
  | .string a, .string b => a == b
  | _, _ => false

/-- The entries of a table after the value of a key has been set; to set it to `nil` removes the key. -/
def set (entries : List (Value × Value)) (key value : Value) : List (Value × Value) :=
  let others := entries.filter fun e => !e.1.same key.normal
  if value.isNil then others else others ++ [(key.normal, value)]

end Value

mutual

/-- A packed object and an unpacked value are equal. -/
inductive Equals (heap : Heap) : Object → Value → Prop
  | nil : Equals heap .nil .nil
  | boolean (b : Bool) : Equals heap (.boolean b) (.boolean b)
  | integer (n : Int64) : Equals heap (.integer n) (.integer n)
  | number (bits : UInt64) : Equals heap (.number bits) (.number bits)
  | lightuserdata (p : UInt64) : Equals heap (.lightuserdata p) (.lightuserdata p)
  | string (s : List UInt8) : Equals heap (.string s) (.string s)
  | table {ref : ℕ} {es : List (Object × Object)} {entries : List (Value × Value)}
      (hperm : (heap ref).entries.Perm es) (h : List.Forall₂ (EntryEquals heap) es entries) :
      Equals heap (.table ref) (.table entries)

/-- Two entries have equal keys and equal values. -/
inductive EntryEquals (heap : Heap) : Object × Object → Value × Value → Prop
  | mk {e : Object × Object} {w : Value × Value} (hkey : Equals heap e.1 w.1)
      (hvalue : Equals heap e.2 w.2) : EntryEquals heap e w

end

end Seri
