import FWServer.Kernel.LittleEndian
import FWServer.Kernel.Resp
import FWServer.Lua.Numerals
import Mathlib.Logic.Function.Basic

/-!
# Requests to redis and its replies

`lualib/redis.lua`: `compose_message` and `compose_table` make the strings of which a request consists, and
`read_response` reads a reply from a socket.  The strings of a request are sent one after another.

A socket is the bytes that arrive at it.  `none` stands for a call that does not return: the bytes that it waits for
have not arrived, or an error is raised.  The stack of Lua is taken not to run out.
-/

namespace Skynet

namespace RedisCodec

open LittleEndian (toInt)
open Decimal (digits)
open Lua (tonumber)
open Occurrence (position)
open Resp (crlf)

/-! ### Requests -/

section

variable {κ : Type*} {f : κ → List UInt8}

/-- A table made by `make_cache(f)`: what it keeps is what `f` computes. -/
structure Cache (f : κ → List UInt8) where
  entries : κ → Option (List UInt8)
  sound : ∀ k s, entries k = some s → s = f k

/-- The table that `make_cache` returns. -/
def makeCache (f : κ → List UInt8) : Cache f where
  entries := fun _ => none
  sound := by
    intro k s h
    cases h

/-- `t[k] = s` in the function of a cache. -/
def Cache.set [DecidableEq κ] (t : Cache f) (k : κ) : Cache f where
  entries := Function.update t.entries k (some (f k))
  sound := by
    intro j s h
    rcases eq_or_ne j k with rfl | hne
    · rw [Function.update_self] at h
      exact (Option.some.inj h).symm
    · rw [Function.update_of_ne hne] at h
      exact t.sound j s h

/-- `t[k]`, and the table after that. -/
def Cache.index [DecidableEq κ] (t : Cache f) (k : κ) : List UInt8 × Cache f :=
  match t.entries k with
  | some s => (s, t)
  | none => (f k, t.set k)

end

/-- `string.upper` -/
def upper (s : List UInt8) : List UInt8 :=
  s.map fun c => if 97 ≤ c ∧ c ≤ 122 then c - 32 else c

/-- The function of `header_cache`. -/
def headerOf (k : ℕ) : List UInt8 :=
  crlf ++ 36 :: digits k ++ crlf

/-- The function of `command_cache`. -/
def commandOf (cmd : List UInt8) : List UInt8 :=
  crlf ++ 36 :: digits cmd.length ++ crlf ++ upper cmd

/-- The function of `count_cache`. -/
def countOf (k : ℕ) : List UInt8 :=
  42 :: digits k

/-- `header_cache`, `command_cache` and `count_cache` -/
structure Caches where
  header : Cache headerOf
  command : Cache commandOf
  count : Cache countOf

/-- The caches when the file has been loaded. -/
def Caches.loaded : Caches where
  header := makeCache headerOf
  command := makeCache commandOf
  count := makeCache countOf

variable {α : Type*}

/-- The arguments of a command: a table, which is a list without `nil`, or a value of another type. -/
inductive Msg (α : Type*) where
  | table (l : List α)
  | other (v : α)

/-- The loop over the arguments. -/
def composeArguments (tostring : α → List UInt8) : List α → Cache headerOf → List (List UInt8) × Cache headerOf
  | [], t => ([], t)
  | v :: msg, t =>
      let v := tostring v
      let (h, t) := t.index v.length
      let (lines, t) := composeArguments tostring msg t
      (h :: v :: lines, t)

/-- `compose_message` -/
def composeMessage (tostring : α → List UInt8) (cmd : List UInt8) (msg : Msg α) (t : Caches) :
    List (List UInt8) × Caches :=
  match msg with
  | .table msg =>
      let (n, count) := t.count.index (msg.length + 1)
      let (c, command) := t.command.index cmd
      let (lines, header) := composeArguments tostring msg t.header
      (n :: c :: lines ++ [crlf], ⟨header, command, count⟩)
  | .other msg =>
      let msg := tostring msg
      let (c, command) := t.command.index cmd
      let (h, header) := t.header.index msg.length
      ([[42, 50], c, h, msg, crlf], ⟨header, command, t.count⟩)

/-- `compose_table`, whose argument `lines` is what comes before. -/
def composeTable (tostring : α → List UInt8) (lines : List (List UInt8)) (msg : List α) (t : Caches) :
    List (List UInt8) × Caches :=
  let (n, count) := t.count.index msg.length
  let (args, header) := composeArguments tostring msg t.header
  (lines ++ n :: args ++ [crlf], ⟨header, t.command, count⟩)

/-- The request of `command:pipeline`, of which `cmds` has been made. -/
def pipelineRequest (tostring : α → List UInt8) : List (List α) → List (List UInt8) → Caches →
    List (List UInt8) × Caches
  | [], cmds, t => (cmds, t)
  | cmd :: ops, cmds, t =>
      let (cmds, t) := composeTable tostring cmds cmd t
      pipelineRequest tostring ops cmds t

/-! ### Replies -/

/-- A Lua value; a table has its fields in the order in which they were set. -/
inductive Value where
  | nil
  | integer (n : ℤ)
  | string (s : List UInt8)
  | table (fields : List (ℕ × Value))

/-- `bulk[i] = v`, when there is no such field. -/
def setField (bulk : List (ℕ × Value)) (i : ℕ) : Value → List (ℕ × Value)
  | .nil => bulk
  | v => bulk ++ [(i, v)]

/-- `fd:readline(sep)` -/
def readline (sep : List UInt8) (fd : List UInt8) : Option (List UInt8 × List UInt8) :=
  (position sep fd).map fun i => (fd.take i, fd.drop (i + sep.length))

/-- `fd:read(sz)`, where the buffer of the socket keeps the size in an `int`. -/
def read (sz : ℤ) (fd : List UInt8) : Option (List UInt8 × List UInt8) :=
  if 0 < toInt sz ∧ toInt sz ≤ fd.length then some (fd.take (toInt sz).toNat, fd.drop (toInt sz).toNat)
  else none

/-- What `read_response` returns, and the bytes that are left. -/
abbrev Response : Type := (Bool × Value) × List UInt8

/-- `redcmd[36]` -/
def redcmd36 (fd data : List UInt8) : Option Response :=
  match tonumber data with
  | none => none
  | some bytes =>
      if bytes < 0 then some ((true, .nil), fd)
      else
        (read (bytes + 2) fd).map fun (firstline, fd) =>
          ((true, .string (firstline.take (firstline.length - 2))), fd)

/-- `redcmd[43]` -/
def redcmd43 (fd data : List UInt8) : Option Response :=
  some ((true, .string data), fd)

/-- `redcmd[45]` -/
def redcmd45 (fd data : List UInt8) : Option Response :=
  some ((false, .string data), fd)

/-- `redcmd[58]` -/
def redcmd58 (fd data : List UInt8) : Option Response :=
  (tonumber data).map fun n => ((true, .integer n), fd)

/-- So many turns of the loop of `redcmd[42]`, from `i` on. -/
def readBulk (readResponse : List UInt8 → Option Response) : ℕ → ℕ → Bool → List (ℕ × Value) → List UInt8 →
    Option Response
  | 0, _, noerr, bulk, fd => some ((noerr, .table bulk), fd)
  | turns + 1, i, noerr, bulk, fd =>
      match readResponse fd with
      | none => none
      | some ((ok, v), fd) => readBulk readResponse turns (i + 1) (if ok then noerr else false) (setField bulk i v) fd

/-- `redcmd[42]` -/
def redcmd42 (readResponse : List UInt8 → Option Response) (fd data : List UInt8) : Option Response :=
  match tonumber data with
  | none => none
  | some n =>
      if n < 0 then some ((true, .nil), fd)
      else readBulk readResponse n.toNat 1 true [] fd

/-- `redcmd[firstchar](fd, data)` -/
def redcmd (readResponse : List UInt8 → Option Response) (firstchar : UInt8) (fd data : List UInt8) :
    Option Response :=
  match firstchar.toNat with
  | 36 => redcmd36 fd data
  | 43 => redcmd43 fd data
  | 45 => redcmd45 fd data
  | 58 => redcmd58 fd data
  | 42 => redcmd42 readResponse fd data
  | _ => none

/-- `read_response`, with so many calls inside one another at most. -/
def readNested : ℕ → List UInt8 → Option Response
  | 0, _ => none
  | depth + 1, fd =>
      match readline crlf fd with
      | some (firstchar :: data, fd) => redcmd (readNested depth) firstchar fd data
      | _ => none

/-- `read_response`; each call reads a line first. -/
def readResponse (fd : List UInt8) : Option Response :=
  readNested (fd.length + 1) fd

/-- The loop of `command:pipeline` over the replies, for so many of them. -/
def pipelineReplies : ℕ → List UInt8 → Option (List (Bool × Value) × List UInt8)
  | 0, fd => some ([], fd)
  | n + 1, fd =>
      match readResponse fd with
      | none => none
      | some (r, fd) => (pipelineReplies n fd).map fun (resp, fd) => (r :: resp, fd)

end RedisCodec

end Skynet
