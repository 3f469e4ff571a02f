import FWServer.Msgpack.Unpackers
import Mathlib.Tactic.Use

/-!
# Cursors

A cursor, over a string or over a loader, stands for the bytes that it has yet to give, `Cursor.Holds`; with these as
its source an unpacker comes to the same, `run_alike`.  Hence `unpacker_chunks`: the function that `m.unpacker` returns
for a loader comes to the same, call by call and error by error, as that for the string of all chunks, wherever the
input was cut.
-/

namespace MessagePack

open Reader (Alike ofList calls)
open Seri (Value)

/-- The bytes that a cursor has yet to give; `loader` says whether it is over a loader. -/
structure Cursor.Holds (loader : Bool) (c : Cursor) (l : List UInt8) : Prop where
  pos : 1 ≤ c.i
  le : c.i ≤ c.j + 1
  length : c.j = c.s.length
  kind : c.ld.isSome = loader
  bytes : l = c.s.drop (c.i - 1) ++ (c.ld.getD []).flatten

variable {c : Cursor} {l : List UInt8} {loader : Bool} {levels : ℕ}

theorem holds_string (str : List UInt8) :
  (cursorString str).Holds false str
  := by
  constructor
  · exact Nat.le_refl 1
  · exact Nat.le_add_left 1 _
  · rfl
  · rfl
  · exact (List.append_nil str).symm

theorem holds_loader (ld : List (List UInt8)) :
  (cursorLoader ld).Holds true ld.flatten
  := by
  constructor
  · exact Nat.le_refl 1
  · exact Nat.le_refl 1
  · rfl
  · rfl
  · rfl

namespace Cursor

/-- Chunks are loaded until there are enough bytes or no more chunks. -/
theorem load_cases (self : Cursor) (e : ℕ) (ld : List (List UInt8)) (hi : self.i = 1) (hj : self.j ≤ self.s.length)
    (hs : self.j = self.s.length ∨ self.s.length < e) :
  ((self.load e ld).2.i = 1) ∧
    ((self.load e ld).1 = .ok () ∧ e ≤ (self.load e ld).2.j ∧
        (self.load e ld).2.Holds true (self.s ++ ld.flatten) ∨
      (self.load e ld).1 = .error "missing bytes" ∧ (self.load e ld).2.j < e ∧
        (self.s ++ ld.flatten).length < e)
  := by
  have hfull : ∀ ld, ¬ e > self.j → Holds true { self with ld := some ld } (self.s ++ ld.flatten) := by
    intro ld hle
    constructor
    · exact Nat.le_of_eq hi.symm
    · rw [hi]
      exact Nat.le_add_left 1 _
    · exact hs.resolve_right fun hlt => hle (Nat.lt_of_le_of_lt hj hlt)
    · rfl
    · dsimp only
      rw [hi]
      rfl
  induction ld generalizing self with
  | nil =>
      unfold load
      split
      · next hlt =>
          use hi
          right
          use rfl, hlt
          rw [List.flatten_nil, List.append_nil]
          exact hs.elim (fun heq => heq ▸ hlt) id
      · next hle => exact ⟨hi, .inl ⟨rfl, Nat.le_of_not_lt hle, hfull [] hle⟩⟩
  | cons chunk ld ih =>
      unfold load
      split
      · rw [List.flatten_cons, ← List.append_assoc]
        apply ih { self with s := self.s ++ chunk, j := (self.s ++ chunk).length } hi (Nat.le_refl _) (.inl rfl)
        intro ld hle
        constructor
        · exact Nat.le_of_eq hi.symm
        · dsimp only
          rw [hi]
          exact Nat.le_add_left 1 _
        · rfl
        · rfl
        · dsimp only
          rw [hi]
          rfl
      · next hle => exact ⟨hi, .inl ⟨rfl, Nat.le_of_not_lt hle, hfull (chunk :: ld) hle⟩⟩

/-- So many bytes are at hand. -/
theorem Holds.taken (h : c.Holds loader l) {n : ℕ} (hn : c.i + n ≤ c.j + 1) :
  n ≤ l.length ∧ (c.s.drop (c.i - 1)).take n = l.take n ∧ Holds loader { c with i := c.i + n } (l.drop n)
  := by
  obtain ⟨hpos, hle, hlength, hkind, rfl⟩ := h
  have hdrop : n ≤ (c.s.drop (c.i - 1)).length := by
    rw [List.length_drop]
    omega
  refine ⟨?_, ?_, ?_⟩
  · rw [List.length_append]
    exact Nat.le_add_right_of_le hdrop
  · rw [List.take_append_of_le_length hdrop]
  · constructor
    · exact Nat.le_add_right_of_le hpos
    · exact hn
    · exact hlength
    · exact hkind
    · dsimp only
      rw [List.drop_append_of_le_length hdrop, List.drop_drop, ← Nat.sub_add_comm hpos]

/-- A cursor gives the bytes that it holds. -/
theorem Holds.next (h : c.Holds loader l) (n : ℕ) :
  Alike (Holds loader) (c.next n) (ofList "missing bytes" l n)
  := by
  unfold Cursor.next
  dsimp only
  split
  · next hlt =>
      have hpos := h.pos
      have hle := h.le
      have hlength := h.length
      have hkind := h.kind
      have hbytes := h.bytes
      unfold underflow
      cases hld : c.ld with
      | none =>
          have hshort : ¬ n ≤ l.length := by
            rw [hbytes, hld, Option.getD_none, List.flatten_nil, List.append_nil, List.length_drop]
            omega
          rw [ofList, if_neg hshort]
          exact .error _
      | some ld =>
          obtain rfl : loader = true := by rw [← hkind, hld, Option.isSome_some]
          rw [hld, Option.getD_some] at hbytes
          have he : c.i + n - 1 - c.i + 1 = n := by omega
          have hshort : (c.s.drop (c.i - 1)).length < n := by
            rw [List.length_drop]
            omega
          dsimp only
          rw [he]
          obtain ⟨hi, hcases⟩ := load_cases ⟨c.s.drop (c.i - 1), 1, 0, some ld⟩ n ld rfl
            (Nat.zero_le _) (.inr hshort)
          generalize load ⟨c.s.drop (c.i - 1), 1, 0, some ld⟩ n ld = x at hi hcases
          obtain ⟨r, c'⟩ := x
          dsimp only at hi hcases
          rw [← hbytes] at hcases
          obtain ⟨rfl, hj, hholds⟩ | ⟨rfl, -, hmissing⟩ := hcases
          · obtain ⟨hn, htake, hrest⟩ := hholds.taken (n := n) (by omega)
            dsimp only
            rw [ofList, if_pos hn, htake]
            exact .ok hrest
          · rw [ofList, if_neg (Nat.not_le_of_lt hmissing)]
            exact .error _
  · next hle =>
      have hpos := h.pos
      obtain ⟨hn, htake, hrest⟩ := h.taken (n := n) (by omega)
      rw [ofList, if_pos hn, htake]
      exact .ok hrest

/-- An unpacker comes to the same with a cursor and with the bytes that it holds. -/
theorem Holds.run {α : Type} (h : c.Holds loader l) (r : Unpacker α) :
  Alike (Holds loader) (r.run Cursor.next c) (r.run (ofList "missing bytes") l)
  := Reader.run_alike (fun _ _ n h => h.next n) r h

end Cursor

/-! ### The functions that `m.unpacker` returns -/

/-- A call with the bytes that are left. -/
def unpackNext (levels : ℕ) (l : List UInt8) : Option (Except String (Value × List UInt8)) :=
  if l = [] then none else some ((unpackCursor levels).run (ofList "missing bytes") l)

theorem Cursor.Holds.unpackerString (h : c.Holds false l) :
  MessagePack.unpackerString levels c = none ∧ unpackNext levels l = none ∨
    ∃ x y, MessagePack.unpackerString levels c = some x ∧ unpackNext levels l = some y ∧ Alike (Holds false) x y
  := by
  have hnone := Option.isSome_eq_false_iff.mp h.kind
  have hbytes := h.bytes
  have hlength := h.length
  have hpos := h.pos
  rw [Option.isNone_iff_eq_none.mp hnone, Option.getD_none, List.flatten_nil, List.append_nil] at hbytes
  have hiff : c.i ≤ c.j ↔ l ≠ [] := by
    rw [← List.length_pos_iff, hbytes, List.length_drop]
    omega
  unfold MessagePack.unpackerString unpackNext
  by_cases hl : l = []
  · rw [if_neg (fun hle => hiff.mp hle hl), if_pos hl]
    exact .inl ⟨rfl, rfl⟩
  · rw [if_pos (hiff.mpr hl), if_neg hl]
    exact .inr ⟨_, _, rfl, rfl, h.run _⟩

theorem Cursor.Holds.unpackerLoader (h : c.Holds true l) :
  MessagePack.unpackerLoader levels c = none ∧ unpackNext levels l = none ∨
    ∃ x y, MessagePack.unpackerLoader levels c = some x ∧ unpackNext levels l = some y ∧ Alike (Holds true) x y
  := by
  unfold MessagePack.unpackerLoader unpackNext
  dsimp only
  by_cases hlt : c.i > c.j
  · -- All that was loaded has been read.
    obtain ⟨ld, hld⟩ := Option.isSome_iff_exists.mp h.kind
    have hdrop : c.s.drop (c.i - 1) = [] := by
      rw [List.drop_eq_nil_iff, ← h.length]
      omega
    have hbytes := h.bytes
    rw [hdrop, hld, Option.getD_some, List.nil_append] at hbytes
    rw [if_pos hlt, Cursor.underflow, hld]
    dsimp only
    rw [Nat.sub_self, Nat.zero_add, hdrop]
    obtain ⟨hi, hcases⟩ := Cursor.load_cases ⟨[], 1, 0, some ld⟩ 1 ld rfl (Nat.le_refl 0) (.inl rfl)
    rw [List.nil_append, ← hbytes] at hcases
    obtain ⟨-, hj, hholds⟩ | ⟨-, hj, hmissing⟩ := hcases
    · have hne : l ≠ [] := by
        rw [← List.length_pos_iff, hholds.bytes, List.length_append, List.length_drop, ← hholds.length]
        omega
      rw [if_pos (Nat.le_trans (Nat.le_of_eq hi) hj), if_neg hne]
      exact .inr ⟨_, _, rfl, rfl, hholds.run _⟩
    · rw [if_neg (Nat.not_le_of_lt (Nat.lt_of_lt_of_eq hj hi.symm)),
        if_pos (List.eq_nil_of_length_eq_zero (Nat.lt_one_iff.mp hmissing))]
      exact .inl ⟨rfl, rfl⟩
  · have hne : l ≠ [] := by
      have hpos := h.pos
      rw [← List.length_pos_iff, h.bytes, List.length_append, List.length_drop, ← h.length]
      omega
    rw [if_neg hlt, if_pos (Nat.le_of_not_lt hlt), if_neg hne]
    exact .inr ⟨_, _, rfl, rfl, h.run _⟩

theorem calls_string (k : ℕ) (str : List UInt8) :
  calls (unpackerString levels) k (cursorString str) = calls (unpackNext levels) k str
  := Reader.calls_alike (fun _ _ h => h.unpackerString) k (holds_string str)

theorem calls_loader (k : ℕ) (ld : List (List UInt8)) :
  calls (unpackerLoader levels) k (cursorLoader ld) = calls (unpackNext levels) k ld.flatten
  := Reader.calls_alike (fun _ _ h => h.unpackerLoader) k (holds_loader ld)

/-- Wherever the input is cut into chunks, the calls of the unpacker over a loader come to the same as those of the
unpacker over a string. -/
theorem unpacker_chunks (levels k : ℕ) (ld : List (List UInt8)) :
  calls (unpackerLoader levels) k (cursorLoader ld) = calls (unpackerString levels) k (cursorString ld.flatten)
  := (calls_loader k ld).trans (calls_string k ld.flatten).symm

/-! ### `m.unpack` -/

theorem unpack_eq (str : List UInt8) :
  unpack levels str = match (unpackCursor levels).run (ofList "missing bytes") str with
    | .ok (data, rest) => if rest = [] then .ok data else .error "extra bytes"
    | .error e => .error e
  := by
  unfold unpack
  have halike := (holds_string str).run (unpackCursor levels)
  generalize (unpackCursor levels).run Cursor.next (cursorString str) = x at halike
  generalize (unpackCursor levels).run (ofList "missing bytes") str = y at halike
  cases halike with
  | @ok data c rest hholds =>
      have hnone := Option.isSome_eq_false_iff.mp hholds.kind
      have hbytes := hholds.bytes
      have hlength := hholds.length
      have hpos := hholds.pos
      rw [Option.isNone_iff_eq_none.mp hnone, Option.getD_none, List.flatten_nil, List.append_nil] at hbytes
      dsimp only
      have hiff : c.i ≤ c.j ↔ rest ≠ [] := by
        rw [← List.length_pos_iff, hbytes, List.length_drop]
        omega
      by_cases hrest : rest = []
      · rw [if_neg (fun hle => hiff.mp hle hrest), if_pos hrest]
      · rw [if_pos (hiff.mpr hrest), if_neg hrest]
  | error e => rfl

end MessagePack
