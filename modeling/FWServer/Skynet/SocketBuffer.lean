import FWServer.Kernel.LittleEndian
import Mathlib.Data.Int.Notation

/-!
# Socket buffers

`lualib-src/lua-socket.c`: what has been read from a socket is kept in a linked list of blocks, from the first of which
a part may have been taken.  Strings are taken from it by their size, or up to a separator; both may be cut across
blocks.  The pool of the nodes of the list is left out.

A size that comes from Lua is an integer of 64 bits, and is kept in an `int`; `none` stands for what the C code may not
do, as to follow a null pointer, or to copy a negative number of bytes.
-/

namespace Skynet

/-- `struct socket_buffer`, with the blocks of its nodes. -/
structure SocketBuffer where
  size : ℤ
  offset : ℕ
  blocks : List (List UInt8)
  deriving DecidableEq

namespace SocketBuffer

open LittleEndian (toInt)

/-- `lnewbuffer` -/
def newbuffer : SocketBuffer where
  size := 0
  offset := 0
  blocks := []

/-- What is called on a buffer; `check` says whether `lreadline` is called without a pool. -/
inductive Call where
  | push (msg : List UInt8)
  | pop (sz : ℤ)
  | readline (check : Bool) (sep : List UInt8)
  | readall
  | clear

/-- What is returned. -/
inductive Result where
  | size (n : ℤ)
  | popped (s : Option (List UInt8)) (size : ℤ)
  | line (s : Option (List UInt8))
  | checked (found : Bool)
  | all (s : List UInt8)
  | cleared
  deriving DecidableEq

/-- The loop of `pop_lstring`: what is copied, and the blocks and the offset after that. -/
def popLoop : List (List UInt8) → ℕ → ℤ → ℤ → Option (List UInt8 × List (List UInt8) × ℕ)
  | [], _, _, _ => none
  | current :: rest, offset, sz, skip =>
      let bytes : ℤ := current.length - offset
      if sz ≤ bytes then
        some (if skip < sz then (current.drop offset).take (sz - skip).toNat else [],
          if bytes = sz then (rest, 0) else (current :: rest, offset + sz.toNat))
      else
        let real_sz := sz - skip
        (popLoop rest 0 (sz - bytes) skip).map fun (s, blocks) =>
          ((if 0 < real_sz then (current.drop offset).take (min real_sz bytes).toNat else []) ++ s, blocks)

/-- `pop_lstring`, for a buffer with a first block in the two cases in which nothing more is needed. -/
def popLstring (sb : SocketBuffer) (sz skip : ℤ) : Option (List UInt8 × SocketBuffer) :=
  match sb.blocks with
  | [] => none
  | current :: rest =>
      let bytes : ℤ := current.length - sb.offset
      if sz < bytes then
        if sz < skip then none
        else some ((current.drop sb.offset).take (sz - skip).toNat, { sb with offset := sb.offset + sz.toNat })
      else if sz = bytes then
        if sz < skip then none
        else some ((current.drop sb.offset).take (sz - skip).toNat, { sb with offset := 0, blocks := rest })
      else
        (popLoop sb.blocks sb.offset sz skip).map fun (s, blocks, offset) =>
          (s, { sb with blocks := blocks, offset := offset })

/-- `lpushbuffer` -/
def lpushbuffer (sb : SocketBuffer) (msg : List UInt8) : Result × SocketBuffer :=
  let size := sb.size + msg.length
  (.size size, { sb with blocks := sb.blocks ++ [msg], size := size })

/-- `lpopbuffer` -/
def lpopbuffer (sb : SocketBuffer) (n : ℤ) : Option (Result × SocketBuffer) :=
  let sz := toInt n
  if sb.size < sz ∨ sz = 0 then some (.popped none sb.size, sb)
  else (popLstring sb sz 0).map fun (s, sb) => (.popped (some s) (sb.size - sz), { sb with size := sb.size - sz })

/-- The loop of `lreadall`. -/
def readLoop : List (List UInt8) → ℕ → List UInt8
  | [], _ => []
  | current :: rest, offset => current.drop offset ++ readLoop rest 0

/-- The buffer when all nodes have been returned. -/
def returned (sb : SocketBuffer) : SocketBuffer where
  size := 0
  offset := if sb.blocks = [] then sb.offset else 0
  blocks := []

/-- `lreadall` -/
def lreadall (sb : SocketBuffer) : Result × SocketBuffer :=
  (.all (readLoop sb.blocks sb.offset), sb.returned)

/-- `lclearbuffer` -/
def lclearbuffer (sb : SocketBuffer) : Result × SocketBuffer :=
  (.cleared, sb.returned)

/-- `check_sep` -/
def checkSep : List (List UInt8) → ℕ → List UInt8 → ℤ → Option Bool
  | [], _, _, _ => none
  | node :: rest, start, sep, seplen =>
      let sz : ℤ := node.length - start
      if seplen ≤ sz then
        if seplen < 0 then none
        else some (decide ((node.drop start).take seplen.toNat = sep.take seplen.toNat))
      else if 0 < sz ∧ (node.drop start).take sz.toNat ≠ sep.take sz.toNat then some false
      else checkSep rest 0 (sep.drop sz.toNat) (seplen - sz)

/-- The loop of `lreadline`, for so many turns at most: where the separator is found. -/
def lineLoop (sep : List UInt8) (seplen : ℤ) : ℕ → List (List UInt8) → ℕ → ℤ → ℕ → Option (Option ℕ)
  | 0, _, _, _, _ => some none
  | n + 1, blocks, start, bytes, i =>
      match checkSep blocks start sep seplen with
      | none => none
      | some true => some (some i)
      | some false =>
          if bytes - 1 = 0 then
            match blocks.tail with
            | [] => some none
            | current :: rest => lineLoop sep seplen n (current :: rest) 0 current.length (i + 1)
          else lineLoop sep seplen n blocks (start + 1) (bytes - 1) (i + 1)

/-- `lreadline` -/
def lreadline (sb : SocketBuffer) (check : Bool) (sep : List UInt8) : Option (Result × SocketBuffer) :=
  let seplen := toInt sep.length
  let nothing : Result := if check then .checked false else .line none
  match sb.blocks with
  | [] => some (nothing, sb)
  | current :: _ =>
      match lineLoop sep seplen (sb.size - seplen + 1).toNat sb.blocks sb.offset (current.length - sb.offset) 0 with
      | none => none
      | some none => some (nothing, sb)
      | some (some i) =>
          if check then some (.checked true, sb)
          else (popLstring sb (toInt (i + sep.length)) seplen).map fun (s, sb) =>
            (.line (some s), { sb with size := toInt (sb.size - (i + sep.length)) })

/-- A call. -/
def exec (sb : SocketBuffer) : Call → Option (Result × SocketBuffer)
  | .push msg => some (sb.lpushbuffer msg)
  | .pop sz => sb.lpopbuffer sz
  | .readline check sep => sb.lreadline check sep
  | .readall => some sb.lreadall
  | .clear => some sb.lclearbuffer

/-- Calls, one after another. -/
def run (sb : SocketBuffer) : List Call → Option (List Result × SocketBuffer)
  | [] => some ([], sb)
  | c :: cs =>
      match sb.exec c with
      | none => none
      | some (r, sb) => (run sb cs).map fun (rs, sb) => (r :: rs, sb)

end SocketBuffer

end Skynet
