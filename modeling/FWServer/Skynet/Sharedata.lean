import FWServer.Seri.Values
import Mathlib.Data.Option.Basic

/-!
# Shared configuration tables

`lualib-src/lua-sharedata.c`: `lnewconf` copies a Lua table into a `struct table`, which other Lua states read with
`lindexconf` and `lnextkey`.  Integer keys up to `lua_rawlen` are in its array; the others are in as many slots as there
are such keys, which are filled in two passes.  Strings are kept once, on the stack of a Lua state, from index 2 on; the
list of them is that stack.

`none` stands for an error, and for what the C code may not do, as to read a slot that has not been filled.  How many
calls may be nested in C and whether `luaL_checkstack` finds room are parameters; memory is taken not to run out.
-/

namespace Skynet

namespace Sharedata

open Seri (Object Heap Table)

/-- The key of a node with its type: a number, or the index of a string. -/
inductive NodeKey where
  | integer (key : Int32)
  | string (index : ℕ)
  deriving DecidableEq

/-- `struct node` -/
structure Node (α : Type) where
  v : α
  key : NodeKey
  next : Option ℕ
  keyhash : UInt32
  nocolliding : Bool

/-- `struct table`; a slot of `hash` that has not been filled is `none`. -/
structure Conf (α : Type) where
  array : List α
  hash : List (Option (Node α))

/-- `union value` with its type. -/
inductive Val where
  | nil
  | integer (d : Int64)
  | real (n : UInt64)
  | string (index : ℕ)
  | boolean (b : Bool)
  | table (tbl : Conf Val)

/-- The strings of a Lua state. -/
abbrev Strings : Type :=
  List (List UInt8)

/-! ### Conversion -/

/-- `countsize`, which lets tables pass as keys. -/
def countsize (entries : List (Object × Object)) (sizearray : ℕ) : Option ℕ :=
  match entries with
  | [] => some 0
  | (key, _) :: entries =>
      match key with
      | .integer nkey =>
          (countsize entries sizearray).map fun n => if 0 < nkey.toInt ∧ nkey.toInt ≤ sizearray then n else n + 1
      | .string _ => (countsize entries sizearray).map (· + 1)
      | .table _ => (countsize entries sizearray).map (· + 1)
      | _ => none

/-- So many turns of the loop of `calchash`. -/
def calchashLoop (str : List UInt8) (step : ℕ) : ℕ → ℕ → UInt32 → UInt32
  | 0, _, h => h
  | turns + 1, l1, h =>
      if step ≤ l1 then
        calchashLoop str step turns (l1 - step) (h ^^^ ((h <<< 5) + (h >>> 2) + (str.getD (l1 - 1) 0).toUInt32))
      else h

/-- `calchash` -/
def calchash (str : List UInt8) : UInt32 :=
  let l := str.length
  let step := l / 2 ^ 5 + 1
  calchashLoop str step l l (UInt32.ofNat l)

/-- `stringindex` -/
def stringindex (strings : Strings) (str : List UInt8) : ℕ × Strings :=
  if str ∈ strings then (strings.idxOf str + 2, strings)
  else (strings.length + 2, strings ++ [str])

/-- `setvalue`, which calls `convtable` for a table. -/
def setvalue (convtable : ℕ → Strings → Option (Conf Val × Strings)) (v : Object) (strings : Strings) :
    Option (Val × Strings) :=
  match v with
  | .nil => some (.nil, strings)
  | .integer n => some (.integer n, strings)
  | .number n => some (.real n, strings)
  | .string str =>
      let (index, strings) := stringindex strings str
      some (.string index, strings)
  | .boolean b => some (.boolean b, strings)
  | .table ref => (convtable ref strings).map fun (tbl, strings) => (.table tbl, strings)
  | _ => none

/-- Where a key belongs: in the array, or in a slot. -/
inductive Place where
  | array (key : ℕ)
  | hash (key : NodeKey) (keyhash : UInt32)

/-- Where a number belongs. -/
def placeOf (sizearray : ℕ) (key : Int32) : Place :=
  if 0 < key.toInt ∧ key.toInt ≤ sizearray then .array key.toInt.toNat
  else .hash (.integer key) key.toUInt32

/-- `lua_tolstring`, whose length is 0 where it returns `NULL`. -/
def tolstring : Object → List UInt8
  | .string s => s
  | _ => []

/-- `ishashkey` -/
def ishashkey (sizearray : ℕ) (key : Object) (strings : Strings) : Place × Strings :=
  match key with
  | .integer n => (placeOf sizearray n.toInt32, strings)
  | .number bits => (placeOf sizearray ((Seri.tointeger bits).getD 0).toInt32, strings)
  | key =>
      let s := tolstring key
      let (index, strings) := stringindex strings s
      (.hash (.string index) (calchash s), strings)

section

variable (set : Object → Strings → Option (Val × Strings)) (tbl : Conf Val) (strings : Strings)

/-- `setarray`, with `set` for `setvalue`. -/
def setarray (v : Object) (key : ℕ) : Option (Conf Val × Strings) :=
  (set v strings).map fun (v, strings) => ({ tbl with array := tbl.array.set (key - 1) v }, strings)

/-- One turn of the loop of `fillnocolliding`. -/
def fillnocollidingStep (e : Object × Object) : Option (Conf Val × Strings) :=
  match ishashkey tbl.array.length e.1 strings with
  | (.array key, strings) => setarray set tbl strings e.2 key
  | (.hash key keyhash, strings) =>
      let i := keyhash.toNat % tbl.hash.length
      match tbl.hash[i]? with
      | some none =>
          (set e.2 strings).map fun (v, strings) =>
            ({ tbl with hash := tbl.hash.set i (some ⟨v, key, none, keyhash, true⟩) }, strings)
      | some (some _) => some (tbl, strings)
      | none => none

/-- One turn of the loop of `fillcolliding`. -/
def fillcollidingStep (e : Object × Object) : Option (Conf Val × Strings) :=
  match ishashkey tbl.array.length e.1 strings with
  | (.array _, strings) => some (tbl, strings)
  | (.hash key keyhash, strings) =>
      let i := keyhash.toNat % tbl.hash.length
      match tbl.hash[i]? with
      | some (some mainpos) =>
          if mainpos.key = key then some (tbl, strings)
          else
            match tbl.hash.findIdx? Option.isNone with
            | none => none
            | some n =>
                (set e.2 strings).map fun (v, strings) =>
                  let hash := tbl.hash.set i (some { mainpos with next := some n, nocolliding := false })
                  ({ tbl with hash := hash.set n (some ⟨v, key, mainpos.next, keyhash, false⟩) }, strings)
      | _ => none

end

/-- A loop over the entries of a table. -/
def fill (step : Conf Val → Strings → Object × Object → Option (Conf Val × Strings)) :
    List (Object × Object) → Conf Val → Strings → Option (Conf Val × Strings)
  | [], tbl, strings => some (tbl, strings)
  | e :: entries, tbl, strings =>
      match step tbl strings e with
      | none => none
      | some (tbl, strings) => fill step entries tbl strings

/-- `fillnocolliding` -/
def fillnocolliding (set : Object → Strings → Option (Val × Strings)) :
    List (Object × Object) → Conf Val → Strings → Option (Conf Val × Strings) :=
  fill (fillnocollidingStep set)

/-- `fillcolliding` -/
def fillcolliding (set : Object → Strings → Option (Val × Strings)) :
    List (Object × Object) → Conf Val → Strings → Option (Conf Val × Strings) :=
  fill (fillcollidingStep set)

/-- The loop of `convtable` over the array, when there are no slots: so many turns, from `i` on. -/
def fillarray (set : Object → Strings → Option (Val × Strings)) (entries : List (Object × Object)) :
    ℕ → ℕ → Conf Val → Strings → Option (Conf Val × Strings)
  | 0, _, tbl, strings => some (tbl, strings)
  | turns + 1, i, tbl, strings =>
      match setarray set tbl strings (Seri.lookup entries (.integer (Int64.ofNat i))) i with
      | none => none
      | some (tbl, strings) => fillarray set entries turns (i + 1) tbl strings

/-- What `convtable` does with a table, with `set` for `setvalue`; the number of slots is an `int`. -/
def convert (set : Object → Strings → Option (Val × Strings)) (t : Table) (strings : Strings) :
    Option (Conf Val × Strings) :=
  match countsize t.entries t.rawlen with
  | none => none
  | some sizehash =>
      let tbl : Conf Val := ⟨List.replicate t.rawlen .nil, List.replicate sizehash none⟩
      if 2 ^ 31 ≤ sizehash then none
      else if sizehash = 0 then fillarray set t.entries t.rawlen 1 tbl strings
      else
        match fillnocolliding set t.entries tbl strings with
        | none => none
        | some (tbl, strings) => fillcolliding set t.entries tbl strings

/-- `convtable`, with so many calls inside one another at most. -/
def convtable (heap : Heap) : ℕ → ℕ → Strings → Option (Conf Val × Strings)
  | 0, _, _ => none
  | calls + 1, ref, strings => convert (setvalue (convtable heap calls)) (heap ref) strings

/-- `lnewconf`: the table and the strings of its Lua state; `string_index` starts with 1. -/
def lnewconf (room : ℕ → Bool) (calls : ℕ) (heap : Heap) (ref : ℕ) : Option (Conf Val × Strings) :=
  match convtable heap calls ref [] with
  | none => none
  | some (tbl, strings) =>
      let string_index := strings.length + 1
      if room (string_index + 3) then some (tbl, strings) else none

/-! ### Reading -/

/-- What is pushed on the stack of the state that reads. -/
inductive Pushed where
  | nil
  | integer (n : Int64)
  | number (bits : UInt64)
  | string (s : List UInt8)
  | boolean (b : Bool)
  | lightuserdata (tbl : Conf Val)

/-- The string at an index of the stack. -/
def stringAt (strings : Strings) (index : ℕ) : Option (List UInt8) :=
  if 2 ≤ index then strings[index - 2]? else none

/-- `pushvalue` -/
def pushvalue (strings : Strings) : Val → Option Pushed
  | .nil => some .nil
  | .integer d => some (.integer d)
  | .real n => some (.number n)
  | .string index => (stringAt strings index).map .string
  | .boolean b => some (.boolean b)
  | .table tbl => some (.lightuserdata tbl)

/-- The key that is looked up: a number that has been narrowed, or a string. -/
inductive Lookup where
  | integer (key : Int32)
  | string (str : List UInt8)

/-- The hash of a key. -/
def Lookup.keyhash : Lookup → UInt32
  | .integer key => key.toUInt32
  | .string str => calchash str

/-- The key of a node is the one that is looked up. -/
def Node.isKey (strings : Strings) (key : Lookup) (n : Node Val) : Bool :=
  key.keyhash = n.keyhash &&
    match n.key, key with
    | .integer k, .integer key => k = key
    | .string index, .string str => stringAt strings index = some str
    | _, _ => false

/-- So many turns of the loop of `lookup_key`: the slot that is found. -/
def lookupLoop (hash : List (Option (Node Val))) (strings : Strings) (key : Lookup) : ℕ → ℕ → Option (Option ℕ)
  | 0, _ => none
  | turns + 1, i =>
      match hash[i]? with
      | some (some n) =>
          if n.isKey strings key then some (some i)
          else
            match n.next with
            | none => some none
            | some j => lookupLoop hash strings key turns j
      | _ => none

/-- `lookup_key`, which looks at each slot once at most. -/
def lookupKey (tbl : Conf Val) (strings : Strings) (key : Lookup) : Option (Option ℕ) :=
  if tbl.hash.length = 0 then some none
  else
    let i := key.keyhash.toNat % tbl.hash.length
    match tbl.hash[i]? with
    | some (some n) =>
        if key.keyhash ≠ n.keyhash ∧ n.nocolliding then some none
        else lookupLoop tbl.hash strings key tbl.hash.length i
    | _ => none

/-- The value of a slot, or nothing. -/
def pushslot (tbl : Conf Val) (strings : Strings) : Option (Option ℕ) → Option Pushed
  | none => none
  | some none => some .nil
  | some (some i) =>
      match tbl.hash[i]? with
      | some (some n) => pushvalue strings n.v
      | _ => none

/-- `lindexconf` -/
def lindexconf (tbl : Conf Val) (strings : Strings) (key : Object) : Option Pushed :=
  match key with
  | .integer n =>
      match placeOf tbl.array.length n.toInt32 with
      | .array key => (tbl.array[key - 1]?).bind (pushvalue strings)
      | .hash _ _ => pushslot tbl strings (lookupKey tbl strings (.integer n.toInt32))
  | .string str => pushslot tbl strings (lookupKey tbl strings (.string str))
  | _ => none

/-- `pushkey` -/
def pushkey (strings : Strings) (n : Node Val) : Option Object :=
  match n.key with
  | .integer key => some (.integer key.toInt64)
  | .string index => (stringAt strings index).map .string

/-- The key of a slot, or nothing when there is no such slot. -/
def pushhash (tbl : Conf Val) (strings : Strings) (i : ℕ) : Option (Option Object) :=
  match tbl.hash[i]? with
  | none => some none
  | some none => none
  | some (some n) => (pushkey strings n).map some

/-- `pushfirsthash` -/
def pushfirsthash (tbl : Conf Val) (strings : Strings) : Option (Option Object) :=
  pushhash tbl strings 0

def Val.isNil : Val → Bool
  | .nil => true
  | _ => false

/-- The loops of `lnextkey` over the array, from `i` on, and what is pushed after them. -/
def pusharray (tbl : Conf Val) (strings : Strings) (i : ℕ) : Option (Option Object) :=
  match (tbl.array.drop i).findIdx? (fun v => !v.isNil) with
  | some j => some (some (.integer (Int64.ofNat (i + j + 1))))
  | none => pushfirsthash tbl strings

/-- The key of the slot after the one that was found. -/
def pushnext (tbl : Conf Val) (strings : Strings) : Option (Option ℕ) → Option (Option Object)
  | none => none
  | some none => some none
  | some (some i) => pushhash tbl strings (i + 1)

/-- `lnextkey`: the next key, or nothing; the argument is `nil` at the start. -/
def lnextkey (tbl : Conf Val) (strings : Strings) (key : Object) : Option (Option Object) :=
  match key with
  | .nil => pusharray tbl strings 0
  | .integer n =>
      match placeOf tbl.array.length n.toInt32 with
      | .array key => pusharray tbl strings key
      | .hash _ _ => pushnext tbl strings (lookupKey tbl strings (.integer n.toInt32))
  | .number _ => some none
  | .string str => pushnext tbl strings (lookupKey tbl strings (.string str))
  | _ => none

end Sharedata

end Skynet
