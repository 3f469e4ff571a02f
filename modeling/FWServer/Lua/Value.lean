import Mathlib.Data.List.AList
import Mathlib.Data.Int.Notation
import Mathlib.Data.Nat.Notation
import Mathlib.Logic.Function.Basic

/-!
# Lua values, tables and the heap

The values scripts exchange: `nil`, booleans, integers, strings and tables.  A `Table` maps
keys to values; reading an absent key gives `nil`, and assigning `nil` removes the key.

A `Heap` holds the tables that are shared by reference.  A table nested in another one is
the opaque value `Value.tab`: no function of the model looks inside it.
-/

namespace Lua

/-- A Lua value.  Numbers are integers. -/
inductive Value where
  | nil
  | bool (b : Bool)
  | num (n : ℤ)
  | str (s : String)
  | tab (t : ℕ)
  deriving DecidableEq, Repr

namespace Value

/-- Whether a value counts as true in a condition: all do but `nil` and `false`. -/
def truthy : Value → Bool
  | .nil => false
  | .bool b => b
  | _ => true

/-- `v or w`. -/
def orElse (v w : Value) : Value :=
  if v.truthy then v else w

/-- `tostring(v)`. -/
def tostring : Value → String
  | .nil => "nil"
  | .bool b => toString b
  | .num n => n.repr
  | .str s => s
  | .tab t => "table: " ++ t.repr

/-- The name that errors give to the type of a value. -/
def typename : Value → String
  | .nil => "nil"
  | .bool _ => "boolean"
  | .num _ => "number"
  | .str _ => "string"
  | .tab _ => "table"

theorem ne_nil_of_truthy {v : Value} (h : v.truthy = true) :
  v ≠ .nil
  := by
  rintro rfl
  cases h

@[simp]
theorem orElse_of_truthy {v : Value} (h : v.truthy = true) (w : Value) :
  v.orElse w = v
  := if_pos h

end Value

/-- A Lua table. -/
abbrev Table : Type :=
  AList fun _ : Value => Value

namespace Table

/-- `t[k]`. -/
def get (t : Table) (k : Value) : Value :=
  (t.lookup k).getD .nil

/-- The table after `t[k] = v`. -/
def set (t : Table) (k v : Value) : Table :=
  if v = .nil then t.erase k else t.insert k v

/-- The table `{ f₁ = v₁, f₂ = v₂, … }` with named fields. -/
def ofFields (fs : List (String × Value)) : Table :=
  fs.foldr (fun f t => t.set (.str f.1) f.2) ∅

/-- The values `t[i]`, `t[i + 1]`, … before the first `nil`, at most `n` of them. -/
def ipairsFrom (t : Table) : ℕ → ℤ → List Value
  | 0, _ => []
  | n + 1, i => if t.get (.num i) = .nil then [] else t.get (.num i) :: ipairsFrom t n (i + 1)

/-- The values `ipairs(t)` visits. -/
def ipairs (t : Table) : List Value :=
  t.ipairsFrom t.keys.length 1

@[simp]
theorem get_set_self (t : Table) (k v : Value) :
  (t.set k v).get k = v
  := by
  unfold get set
  split
  · next h => simp [h]
  · simp

@[simp]
theorem get_set_of_ne (t : Table) {k k' : Value} (h : k' ≠ k) (v : Value) :
  (t.set k v).get k' = t.get k'
  := by
  unfold get set
  split
  · rw [AList.lookup_erase_ne h]
  · rw [AList.lookup_insert_ne h]

end Table

/-! ### The heap -/

/-- The identity of a table: one of the tables `S` that are there from the start, or one
created since. -/
inductive Ref (S : Type) where
  | static (x : S)
  | created (n : ℕ)
  deriving DecidableEq

/-- The contents of the tables.  The tables created so far are those numbered below `next`. -/
structure Heap (S : Type) where
  cells : Ref S → Table
  next : ℕ

namespace Heap

variable {S : Type} [DecidableEq S]

/-- Creates a table with the content `t`. -/
def alloc (h : Heap S) (t : Table) : Heap S :=
  ⟨Function.update h.cells (.created h.next) t, h.next + 1⟩

/-- The heap after `r[k] = v`. -/
def assign (h : Heap S) (r : Ref S) (k v : Value) : Heap S :=
  { h with cells := Function.update h.cells r ((h.cells r).set k v) }

@[simp]
theorem alloc_cells_self (h : Heap S) (t : Table) :
  (h.alloc t).cells (.created h.next) = t
  := Function.update_self _ _ _

theorem alloc_cells_of_ne (h : Heap S) (t : Table) {r : Ref S} (hr : r ≠ .created h.next) :
  (h.alloc t).cells r = h.cells r
  := Function.update_of_ne hr _ _

@[simp]
theorem alloc_cells_static (h : Heap S) (t : Table) (x : S) :
  (h.alloc t).cells (.static x) = h.cells (.static x)
  := by
  apply alloc_cells_of_ne
  rintro ⟨⟩

@[simp]
theorem assign_cells_self (h : Heap S) (r : Ref S) (k v : Value) :
  (h.assign r k v).cells r = (h.cells r).set k v
  := Function.update_self _ _ _

theorem assign_cells_of_ne (h : Heap S) {r r' : Ref S} (hr : r' ≠ r) (k v : Value) :
  (h.assign r k v).cells r' = h.cells r'
  := Function.update_of_ne hr _ _

end Heap

end Lua
