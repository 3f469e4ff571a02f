import FWServer.Skynet.RedisCodec
import Mathlib.Data.List.OfFn
import Mathlib.Data.List.TakeWhile

/-!
# The redis codec

The strings that `compose_message` and `compose_table` return are a request when they are sent one after another,
whatever the caches hold.  `read_response` reads the encoding of a reply, and leaves what comes after it.
-/

namespace Skynet

namespace RedisCodec

open Decimal (digits signed)
open Lua (tonumber tonumber_signed tonumber_digits)
open Resp (Reply crlf header encodeBulk encodeBulks)

/-! ### Requests -/

section

variable {κ : Type*} {f : κ → List UInt8}

theorem Cache.index_fst [DecidableEq κ] (t : Cache f) (k : κ) :
  (t.index k).1 = f k
  := by
  rw [Cache.index]
  split
  · next s hs => exact t.sound k s hs
  · rfl

end

variable {α : Type*}

/-- An end of a line is sent before each length and after the last string. -/
theorem flatten_composeArguments (tostring : α → List UInt8) (msg : List α) (t : Cache headerOf) :
  (composeArguments tostring msg t).1.flatten ++ crlf = crlf ++ (msg.map tostring).flatMap encodeBulk
  := by
  induction msg generalizing t with
  | nil => rfl
  | cons v msg ih =>
      have hstep : (composeArguments tostring (v :: msg) t).1 = headerOf (tostring v).length :: tostring v ::
          (composeArguments tostring msg (t.index (tostring v).length).2).1 := by
        rw [← t.index_fst]
        rfl
      rw [hstep, List.flatten_cons, List.flatten_cons, List.append_assoc, List.append_assoc, ih]
      simp only [headerOf, encodeBulk, header, List.map_cons, List.flatMap_cons, List.append_assoc, List.cons_append]

@[simp]
theorem length_upper (s : List UInt8) :
  (upper s).length = s.length
  := List.length_map _

theorem flatten_composeMessage (tostring : α → List UInt8) (cmd : List UInt8) (args : List α) (t : Caches) :
  (composeMessage tostring cmd (.table args) t).1.flatten = encodeBulks (upper cmd :: args.map tostring)
  := by
  have hlines : (composeMessage tostring cmd (.table args) t).1
      = countOf (args.length + 1) :: commandOf cmd :: (composeArguments tostring args t.header).1 ++ [crlf] := by
    rw [← t.count.index_fst, ← t.command.index_fst]
    rfl
  rw [hlines, List.flatten_append, List.flatten_cons, List.flatten_cons, List.flatten_singleton, List.append_assoc,
    List.append_assoc, flatten_composeArguments]
  simp only [countOf, commandOf, encodeBulks, encodeBulk, header, length_upper, List.length_cons, List.length_map,
    List.flatMap_cons, List.append_assoc, List.cons_append]

/-- A value that is not a table is sent as the only argument. -/
theorem flatten_composeMessage_other (tostring : α → List UInt8) (cmd : List UInt8) (v : α) (t : Caches) :
  (composeMessage tostring cmd (.other v) t).1.flatten = encodeBulks [upper cmd, tostring v]
  := by
  have hlines : (composeMessage tostring cmd (.other v) t).1
      = [[42, 50], commandOf cmd, headerOf (tostring v).length, tostring v, crlf] := by
    rw [← t.command.index_fst, ← t.header.index_fst]
    rfl
  have htwo : digits 2 = [50] := by decide
  rw [hlines]
  simp only [commandOf, headerOf, encodeBulks, encodeBulk, header, length_upper, htwo, List.flatten_cons,
    List.flatten_nil, List.length_cons, List.length_nil, List.flatMap_cons, List.flatMap_nil, List.append_assoc,
    List.cons_append, List.nil_append, List.append_nil]

theorem flatten_composeTable (tostring : α → List UInt8) (lines : List (List UInt8)) (msg : List α) (t : Caches) :
  (composeTable tostring lines msg t).1.flatten = lines.flatten ++ encodeBulks (msg.map tostring)
  := by
  have hlines : (composeTable tostring lines msg t).1
      = lines ++ countOf msg.length :: (composeArguments tostring msg t.header).1 ++ [crlf] := by
    rw [← t.count.index_fst]
    rfl
  rw [hlines, List.flatten_append, List.flatten_append, List.flatten_cons, List.flatten_singleton, List.append_assoc,
    List.append_assoc, flatten_composeArguments]
  simp only [countOf, encodeBulks, header, List.length_map, List.append_assoc, List.cons_append]

/-- A pipeline sends its requests one after another. -/
theorem flatten_pipelineRequest (tostring : α → List UInt8) (ops : List (List α)) (cmds : List (List UInt8))
    (t : Caches) :
  (pipelineRequest tostring ops cmds t).1.flatten
    = cmds.flatten ++ (ops.map fun cmd => encodeBulks (cmd.map tostring)).flatten
  := by
  induction ops generalizing cmds t with
  | nil => exact (List.append_nil _).symm
  | cons cmd ops ih =>
      rw [List.map_cons, List.flatten_cons, ← List.append_assoc, ← flatten_composeTable tostring cmds cmd t]
      exact ih _ _

/-! ### Replies -/

/-- The fields of a table that is a list of values, from a place on; `nil` is no value of a field. -/
def fieldsFrom : ℕ → List Value → List (ℕ × Value)
  | _, [] => []
  | i, .nil :: l => fieldsFrom (i + 1) l
  | i, v :: l => (i, v) :: fieldsFrom (i + 1) l

/-- The Lua value of a reply. -/
def valueOf : Reply → Value
  | .status line => .string line.text
  | .error line => .string line.text
  | .integer n _ _ => .integer n
  | .bulk s => .string s.bytes
  | .nilBulk => .nil
  | .nilArray => .nil
  | .array _ _ items => .table (fieldsFrom 1 (List.ofFn fun i => valueOf (items i)))

/-- Whether no error occurs in a reply. -/
def isOk : Reply → Bool
  | .error _ => false
  | .array _ _ items => (List.ofFn fun i => isOk (items i)).all id
  | _ => true

theorem isOk_eq_false_iff (reply : Reply) :
  isOk reply = false ↔ reply.HasError
  := by
  induction reply with
  | array n lt items ih =>
      simp only [isOk, Reply.HasError, List.all_eq_false, List.mem_ofFn, exists_exists_eq_and, id, Bool.not_eq_true]
      exact exists_congr ih
  | error line => exact iff_of_true rfl trivial
  | status line => exact iff_of_false Bool.noConfusion id
  | integer n le lt => exact iff_of_false Bool.noConfusion id
  | bulk s => exact iff_of_false Bool.noConfusion id
  | nilBulk => exact iff_of_false Bool.noConfusion id
  | nilArray => exact iff_of_false Bool.noConfusion id

theorem readline_header {first : UInt8} {s : List UInt8} (hfirst : first ≠ 13) (h : 13 ∉ s) (after : List UInt8) :
  readline crlf (header first s ++ after) = some (first :: s, after)
  := Resp.line_header hfirst h after

theorem read_append {s t : List UInt8} (hpos : s ≠ []) (h : s.length < 2 ^ 31) :
  read s.length (s ++ t) = some (s, t)
  := by
  have hlen := List.length_pos_iff.mpr hpos
  rw [read, LittleEndian.toInt_of_lt h, if_pos ⟨by omega, by rw [List.length_append]; omega⟩, Int.toNat_natCast,
    List.take_left, List.drop_left]

theorem setField_append (bulk : List (ℕ × Value)) (i : ℕ) (v : Value) (l : List Value) :
  setField bulk i v ++ fieldsFrom (i + 1) l = bulk ++ fieldsFrom i (v :: l)
  := by
  cases v with
  | nil => rfl
  | integer n => exact List.append_assoc bulk _ _
  | string s => exact List.append_assoc bulk _ _
  | table fields => exact List.append_assoc bulk _ _

/-- The loop reads replies that are read one after another. -/
theorem readBulk_flatten {readResponse : List UInt8 → Option Response} {replies : List Reply}
    (h : ∀ r ∈ replies, ∀ after, readResponse (r.encode ++ after) = some ((isOk r, valueOf r), after))
    (i : ℕ) (noerr : Bool) (bulk : List (ℕ × Value)) (after : List UInt8) :
  readBulk readResponse replies.length i noerr bulk ((replies.map Reply.encode).flatten ++ after)
    = some ((noerr && (replies.map isOk).all id, .table (bulk ++ fieldsFrom i (replies.map valueOf))), after)
  := by
  induction replies generalizing i noerr bulk with
  | nil =>
      have hfields : fieldsFrom i [] = [] := by rw [fieldsFrom.eq_def]
      rw [List.map_nil, List.map_nil, List.all_nil, Bool.and_true, List.map_nil, hfields, List.append_nil]
      rfl
  | cons r replies ih =>
      rw [List.map_cons, List.flatten_cons, List.append_assoc, List.length_cons, readBulk, h r List.mem_cons_self]
      dsimp only
      rw [ih fun r' hr' => h r' (List.mem_cons_of_mem r hr'), List.map_cons, setField_append, List.map_cons,
        List.all_cons]
      cases isOk r with
      | true => rfl
      | false => simp

/-- A reply is read when there are as many calls inside one another as it has bytes. -/
theorem readNested_encode (reply : Reply) (depth : ℕ) (after : List UInt8) (h : reply.encode.length ≤ depth) :
  readNested (depth + 1) (reply.encode ++ after) = some ((isOk reply, valueOf reply), after)
  := by
  induction reply generalizing depth after with
  | status line =>
      rw [readNested, Reply.encode, readline_header (by decide) line.cr]
      rfl
  | error line =>
      rw [readNested, Reply.encode, readline_header (by decide) line.cr]
      rfl
  | integer n le lt =>
      rw [readNested, Reply.encode, readline_header (by decide) (Resp.cr_notMem_signed n)]
      change redcmd58 after (signed n) = _
      rw [redcmd58, tonumber_signed le lt]
      rfl
  | bulk s =>
      have hlt := s.lt
      have hlen : ((s.bytes ++ crlf).length : ℤ) = s.bytes.length + 2 := by
        rw [List.length_append]
        rfl
      have hread : read (s.bytes.length + 2) (s.bytes ++ (crlf ++ after)) = some (s.bytes ++ crlf, after) := by
        rw [← hlen, ← List.append_assoc]
        exact read_append (by simp [crlf]) (by omega)
      rw [readNested, Reply.encode, encodeBulk, List.append_assoc, List.append_assoc,
        readline_header (by decide) (Resp.cr_notMem_digits s.bytes.length)]
      change redcmd36 (s.bytes ++ (crlf ++ after)) (digits s.bytes.length) = _
      rw [redcmd36, tonumber_digits (by omega)]
      dsimp only
      rw [if_neg (by omega), hread, Option.map_some, List.length_append]
      dsimp only [crlf, List.length_cons, List.length_nil]
      rw [Nat.add_sub_cancel, List.take_left]
      rfl
  | nilBulk =>
      rw [readNested, Reply.encode, readline_header (by decide) (Resp.cr_notMem_signed (-1))]
      change redcmd36 after (signed (-1)) = _
      rw [redcmd36, tonumber_signed (by decide) (by decide)]
      rfl
  | nilArray =>
      rw [readNested, Reply.encode, readline_header (by decide) (Resp.cr_notMem_signed (-1))]
      change redcmd42 (readNested depth) after (signed (-1)) = _
      rw [redcmd42, tonumber_signed (by decide) (by decide)]
      rfl
  | array n lt items ih =>
      have hlength : (header 42 (digits n)).length + (((List.ofFn items).map Reply.encode).flatten).length ≤ depth := by
        rw [← List.length_append, List.map_ofFn]
        exact h
      have hheader : 0 < (header 42 (digits n)).length := Nat.succ_pos _
      obtain ⟨depth, rfl⟩ : ∃ d, depth = d + 1 := ⟨depth - 1, by omega⟩
      have hitems : ∀ r ∈ List.ofFn items, ∀ after,
          readNested (depth + 1) (r.encode ++ after) = some ((isOk r, valueOf r), after) := by
        intro r hr after
        have hle := (List.sublist_flatten_of_mem (List.mem_map_of_mem (f := Reply.encode) hr)).length_le
        obtain ⟨i, rfl⟩ := List.mem_ofFn.mp hr
        exact ih i depth after (by omega)
      rw [readNested, Reply.encode, List.append_assoc, readline_header (by decide) (Resp.cr_notMem_digits n)]
      change redcmd42 (readNested (depth + 1)) _ (digits n) = _
      have hloop := readBulk_flatten hitems 1 true [] after
      rw [List.length_ofFn, List.map_ofFn, List.map_ofFn, List.map_ofFn] at hloop
      rw [redcmd42, tonumber_digits lt]
      dsimp only
      rw [if_neg (by omega)]
      exact hloop

theorem readResponse_encode (reply : Reply) (after : List UInt8) :
  readResponse (reply.encode ++ after) = some ((isOk reply, valueOf reply), after)
  := by
  apply readNested_encode
  rw [List.length_append]
  exact Nat.le_add_right _ _

/-- A pipeline reads its replies one after another. -/
theorem pipelineReplies_encode (replies : List Reply) (after : List UInt8) :
  pipelineReplies replies.length ((replies.map Reply.encode).flatten ++ after)
    = some (replies.map fun r => (isOk r, valueOf r), after)
  := by
  induction replies with
  | nil => rfl
  | cons r replies ih =>
      rw [List.length_cons, pipelineReplies, List.map_cons, List.flatten_cons, List.append_assoc, readResponse_encode]
      dsimp only
      rw [ih]
      rfl

theorem pipelineReplies_one (fd : List UInt8) :
  pipelineReplies 1 fd = (readResponse fd).map fun (r, fd) => ([r], fd)
  := by
  rw [pipelineReplies]
  cases readResponse fd <;> rfl

/-- A pipeline waits for the replies that are missing. -/
theorem pipelineReplies_missing {n : ℕ} {replies : List Reply} (h : replies.length < n) :
  pipelineReplies n (replies.flatMap Reply.encode) = none
  := by
  induction replies generalizing n with
  | nil =>
      obtain ⟨n, rfl⟩ := Nat.exists_eq_succ_of_ne_zero (Nat.ne_of_gt h)
      rfl
  | cons r replies ih =>
      obtain ⟨n, rfl⟩ := Nat.exists_eq_succ_of_ne_zero (Nat.ne_of_gt (Nat.zero_lt_of_lt h))
      rw [pipelineReplies, List.flatMap_cons, readResponse_encode]
      dsimp only
      rw [ih (Nat.lt_of_succ_lt_succ h)]
      rfl

/-! ### Bytes that arrive later -/

section

variable {fd rest : List UInt8}

theorem readline_append {line : List UInt8} (h : readline crlf fd = some (line, rest)) (after : List UInt8) :
  readline crlf (fd ++ after) = some (line, rest ++ after)
  := by
  obtain ⟨i, hi, heq⟩ := Option.map_eq_some_iff.mp h
  obtain ⟨rfl, rfl⟩ := Prod.mk.inj heq
  have hle := (Occurrence.position_eq_some hi).1.length_le
  rw [List.length_drop] at hle
  have hlen : crlf.length = 2 := rfl
  rw [readline, Occurrence.position_append_right hi, Option.map_some, List.take_append_of_le_length (by omega),
    List.drop_append_of_le_length (by omega)]

theorem read_append_right {sz : ℤ} {s : List UInt8} (h : read sz fd = some (s, rest)) (after : List UInt8) :
  read sz (fd ++ after) = some (s, rest ++ after)
  := by
  rw [read] at h
  split_ifs at h with hsize
  obtain ⟨rfl, rfl⟩ := Prod.mk.inj (Option.some.inj h)
  rw [read, if_pos ⟨hsize.1, by rw [List.length_append]; omega⟩, List.take_append_of_le_length (by omega),
    List.drop_append_of_le_length (by omega)]

/-- What holds of the replies in a table holds of the table. -/
theorem readBulk_append {f f' : List UInt8 → Option Response} (after : List UInt8)
    (hf : ∀ fd r rest, f fd = some (r, rest) → f' (fd ++ after) = some (r, rest ++ after)) {turns i : ℕ} {noerr : Bool}
    {bulk : List (ℕ × Value)} {r : Bool × Value} (h : readBulk f turns i noerr bulk fd = some (r, rest)) :
  readBulk f' turns i noerr bulk (fd ++ after) = some (r, rest ++ after)
  := by
  induction turns generalizing i noerr bulk fd with
  | zero =>
      obtain ⟨rfl, rfl⟩ := Prod.mk.inj (Option.some.inj h)
      rfl
  | succ turns ih =>
      rw [readBulk] at h
      split at h
      · cases h
      · next hread =>
          rw [readBulk, hf _ _ _ hread]
          exact ih h

theorem redcmd36_append {data : List UInt8} {r : Bool × Value} (h : redcmd36 fd data = some (r, rest))
    (after : List UInt8) :
  redcmd36 (fd ++ after) data = some (r, rest ++ after)
  := by
  rw [redcmd36] at h ⊢
  split at h
  · cases h
  · split_ifs at h ⊢ with hneg
    · obtain ⟨rfl, rfl⟩ := Prod.mk.inj (Option.some.inj h)
      rfl
    · obtain ⟨⟨firstline, fd'⟩, hread, heq⟩ := Option.map_eq_some_iff.mp h
      obtain ⟨rfl, rfl⟩ := Prod.mk.inj heq
      rw [read_append_right hread]
      rfl

theorem redcmd42_append {f f' : List UInt8 → Option Response} (after : List UInt8)
    (hf : ∀ fd r rest, f fd = some (r, rest) → f' (fd ++ after) = some (r, rest ++ after)) {data : List UInt8}
    {r : Bool × Value} (h : redcmd42 f fd data = some (r, rest)) :
  redcmd42 f' (fd ++ after) data = some (r, rest ++ after)
  := by
  rw [redcmd42] at h ⊢
  split at h
  · cases h
  · split_ifs at h ⊢ with hneg
    · obtain ⟨rfl, rfl⟩ := Prod.mk.inj (Option.some.inj h)
      rfl
    · exact readBulk_append after hf h

theorem redcmd_append {f f' : List UInt8 → Option Response} (after : List UInt8)
    (hf : ∀ fd r rest, f fd = some (r, rest) → f' (fd ++ after) = some (r, rest ++ after)) {firstchar : UInt8}
    {data : List UInt8} {r : Bool × Value} (h : redcmd f firstchar fd data = some (r, rest)) :
  redcmd f' firstchar (fd ++ after) data = some (r, rest ++ after)
  := by
  rw [redcmd] at h ⊢
  generalize firstchar.toNat = c at h ⊢
  split at h
  · exact redcmd36_append h after
  · obtain ⟨rfl, rfl⟩ := Prod.mk.inj (Option.some.inj h)
    rfl
  · obtain ⟨rfl, rfl⟩ := Prod.mk.inj (Option.some.inj h)
    rfl
  · obtain ⟨n, hn, heq⟩ := Option.map_eq_some_iff.mp h
    obtain ⟨rfl, rfl⟩ := Prod.mk.inj heq
    rw [redcmd58, hn]
    rfl
  · exact redcmd42_append after hf h
  · cases h

/-- A reply that has been read would have been read the same, had more arrived. -/
theorem readNested_append {depth depth' : ℕ} {r : Bool × Value} (h : readNested depth fd = some (r, rest))
    (hle : depth ≤ depth') (after : List UInt8) :
  readNested depth' (fd ++ after) = some (r, rest ++ after)
  := by
  induction depth generalizing depth' fd rest r with
  | zero => cases h
  | succ depth ih =>
      obtain ⟨depth', rfl⟩ := Nat.exists_eq_add_of_le' hle
      rw [readNested] at h
      split at h
      · next hline =>
          rw [← Nat.add_assoc, readNested, readline_append hline]
          exact redcmd_append after (fun _ _ _ hread => ih hread (Nat.le_add_left depth depth')) h
      · cases h

theorem readResponse_append {r : Bool × Value} (h : readResponse fd = some (r, rest)) (after : List UInt8) :
  readResponse (fd ++ after) = some (r, rest ++ after)
  := by
  apply readNested_append h
  rw [List.length_append]
  omega

theorem pipelineReplies_append {n : ℕ} {resp : List (Bool × Value)} (h : pipelineReplies n fd = some (resp, rest))
    (after : List UInt8) :
  pipelineReplies n (fd ++ after) = some (resp, rest ++ after)
  := by
  induction n generalizing fd resp with
  | zero =>
      obtain ⟨rfl, rfl⟩ := Prod.mk.inj (Option.some.inj h)
      rfl
  | succ n ih =>
      rw [pipelineReplies] at h
      split at h
      · cases h
      · next hread =>
          obtain ⟨⟨resp', rest'⟩, hreplies, heq⟩ := Option.map_eq_some_iff.mp h
          obtain ⟨rfl, rfl⟩ := Prod.mk.inj heq
          rw [pipelineReplies, readResponse_append hread]
          dsimp only
          rw [ih hreplies]
          rfl

end

/-! ### The codec -/

/-- What `compose_message` returns is sent as one array of strings, the command in capitals and then the arguments, for
any contents of the caches.  `read_response` reads a reply of any depth, whatever comes after it, and tells whether an
error occurs in it. -/
theorem requests_and_replies (tostring : α → List UInt8) (t : Caches) (cmd : List UInt8) (args : List α)
    (reply : Reply) (after : List UInt8) :
  Resp.request ((composeMessage tostring cmd (.table args) t).1.flatten ++ after)
      = some (upper cmd :: args.map tostring, after)
    ∧ ∃ ok, readResponse (reply.encode ++ after) = some ((ok, valueOf reply), after) ∧ (ok = false ↔ reply.HasError)
  := by
  constructor
  · rw [flatten_composeMessage]
    exact Resp.request_encodeBulks _ after
  · exact ⟨isOk reply, readResponse_encode reply after, isOk_eq_false_iff reply⟩

end RedisCodec

end Skynet
