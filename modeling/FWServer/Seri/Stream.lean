import FWServer.Seri.Unpack
import Mathlib.Order.Basic

/-!
# The stream as tokens

What a stream of bytes consists of, said of the bytes that are left and without a read block: numbers,
integers with their cookie, and tokens, which are the values that are not tables and the heads of tables.

`At` relates a read block to the bytes that are left, and `Agrees` says of a reader that it takes from them
what a function on lists does, or else raises the error for an invalid stream; it is proved for the
functions of the source that read no tables.
-/

namespace Seri

open LittleEndian (toInt toInt_of_lt toInt_of_ge)

/-! ### Tokens -/

/-- The first `k` bytes. -/
def takeBytes (k : ℕ) (bs : List UInt8) : Option (List UInt8 × List UInt8) :=
  if bs.length < k then none else some (bs.take k, bs.drop k)

/-- An integer with its cookie. -/
def takeInteger (cookie : ℕ) (bs : List UInt8) : Option (ℤ × List UInt8) :=
  match cookie with
  | TYPE_NUMBER_ZERO => some (0, bs)
  | TYPE_NUMBER_BYTE => (takeBytes 1 bs).map fun x => (LittleEndian.decode x.1, x.2)
  | TYPE_NUMBER_WORD => (takeBytes 2 bs).map fun x => (LittleEndian.decode x.1, x.2)
  | TYPE_NUMBER_DWORD =>
      (takeBytes 4 bs).map fun x => ((LittleEndian.decode x.1 : ℤ).bmod (2 ^ 32), x.2)
  | TYPE_NUMBER_QWORD =>
      (takeBytes 8 bs).map fun x => ((LittleEndian.decode x.1 : ℤ).bmod (2 ^ 64), x.2)
  | _ => none

/-- The size of the array part of a table. -/
def takeArraySize (cookie : ℕ) (bs : List UInt8) : Option (ℤ × List UInt8) :=
  if cookie = MAX_COOKIE - 1 then
    match bs with
    | [] => none
    | type :: bs =>
        if typeOf type ≠ TYPE_NUMBER ∨ cookieOf type = TYPE_NUMBER_REAL then none
        else (takeInteger (cookieOf type) bs).map fun x => (toInt x.1, x.2)
  else some (cookie, bs)

/-- A value that is not a table, the head of a table, or the head of a string of `2 ^ 31` bytes or more. -/
inductive Token where
  | plain (v : Value)
  | table (array_size : ℤ)
  | huge

/-- A string of `n` bytes. -/
def takeString (n : ℕ) (bs : List UInt8) : Option (Token × List UInt8) :=
  (takeBytes n bs).map fun x => (.plain (.string x.1), x.2)

/-- The token after a type and a cookie. -/
def takeToken (type cookie : ℕ) (bs : List UInt8) : Option (Token × List UInt8) :=
  match type with
  | TYPE_NIL => some (.plain .nil, bs)
  | TYPE_BOOLEAN => some (.plain (.boolean (cookie ≠ 0)), bs)
  | TYPE_NUMBER =>
      if cookie = TYPE_NUMBER_REAL then
        (takeBytes 8 bs).map fun x =>
          (.plain (.number (UInt64.ofNat (LittleEndian.decode x.1))), x.2)
      else (takeInteger cookie bs).map fun x => (.plain (.integer (Int64.ofInt x.1)), x.2)
  | TYPE_USERDATA =>
      (takeBytes 8 bs).map fun x =>
        (.plain (.lightuserdata (UInt64.ofNat (LittleEndian.decode x.1))), x.2)
  | TYPE_SHORT_STRING => takeString cookie bs
  | TYPE_LONG_STRING =>
      if cookie = 2 then
        (takeBytes 2 bs).bind fun x => takeString (LittleEndian.decode x.1) x.2
      else if cookie = 4 then
        (takeBytes 4 bs).bind fun x =>
          if LittleEndian.decode x.1 < 2 ^ 31 then takeString (LittleEndian.decode x.1) x.2
          else some (.huge, x.2)
      else none
  | TYPE_TABLE => (takeArraySize cookie bs).map fun x => (.table x.1, x.2)
  | _ => none

/-! ### Tokens take bytes off -/

theorem takeBytes_length {k : ℕ} {bs : List UInt8} {x : List UInt8 × List UInt8}
    (h : takeBytes k bs = some x) :
  x.2.length ≤ bs.length
  := by
  obtain ⟨-, hx⟩ := Option.ite_none_left_eq_some.mp h
  rw [← Option.some.inj hx, List.length_drop]
  exact Nat.sub_le _ _

theorem takeBytes_fst {k : ℕ} {bs : List UInt8} {x : List UInt8 × List UInt8}
    (h : takeBytes k bs = some x) :
  x.1.length = k
  := by
  obtain ⟨hlt, hx⟩ := Option.ite_none_left_eq_some.mp h
  rw [← Option.some.inj hx, List.length_take]
  exact Nat.min_eq_left (Nat.le_of_not_lt hlt)

theorem takeBytes_append (bs rest : List UInt8) :
  takeBytes bs.length (bs ++ rest) = some (bs, rest)
  := by
  have hlen : ¬ (bs ++ rest).length < bs.length := by
    rw [List.length_append]
    omega
  rw [takeBytes, if_neg hlen, List.take_left, List.drop_left]

theorem takeInteger_length {cookie : ℕ} {bs : List UInt8} {x : ℤ × List UInt8}
    (h : takeInteger cookie bs = some x) :
  x.2.length ≤ bs.length
  := by
  unfold takeInteger at h
  split at h
  · cases h
    exact Nat.le_refl _
  all_goals
    first
    | cases h
    | obtain ⟨y, hy, rfl⟩ := Option.map_eq_some_iff.mp h
      exact takeBytes_length hy

theorem takeArraySize_length {cookie : ℕ} {bs : List UInt8} {x : ℤ × List UInt8}
    (h : takeArraySize cookie bs = some x) :
  x.2.length ≤ bs.length
  := by
  unfold takeArraySize at h
  split at h
  · cases bs with
    | nil => cases h
    | cons type bs =>
        obtain ⟨-, h⟩ := Option.ite_none_left_eq_some.mp h
        obtain ⟨y, hy, rfl⟩ := Option.map_eq_some_iff.mp h
        have hle := takeInteger_length hy
        exact Nat.le_succ_of_le hle
  · cases h
    exact Nat.le_refl _

theorem takeString_length {n : ℕ} {bs : List UInt8} {x : Token × List UInt8}
    (h : takeString n bs = some x) :
  x.2.length ≤ bs.length
  := by
  obtain ⟨y, hy, rfl⟩ := Option.map_eq_some_iff.mp h
  exact takeBytes_length hy

theorem takeToken_length {type cookie : ℕ} {bs : List UInt8} {x : Token × List UInt8}
    (h : takeToken type cookie bs = some x) :
  x.2.length ≤ bs.length
  := by
  unfold takeToken at h
  split at h
  · cases h
    exact Nat.le_refl _
  · cases h
    exact Nat.le_refl _
  · split at h
    · obtain ⟨y, hy, rfl⟩ := Option.map_eq_some_iff.mp h
      exact takeBytes_length hy
    · obtain ⟨y, hy, rfl⟩ := Option.map_eq_some_iff.mp h
      exact takeInteger_length hy
  · obtain ⟨y, hy, rfl⟩ := Option.map_eq_some_iff.mp h
    exact takeBytes_length hy
  · exact takeString_length h
  · split at h
    · obtain ⟨y, hy, h⟩ := Option.bind_eq_some_iff.mp h
      exact Nat.le_trans (takeString_length h) (takeBytes_length hy)
    · obtain ⟨-, h⟩ := Option.ite_none_right_eq_some.mp h
      obtain ⟨y, hy, h⟩ := Option.bind_eq_some_iff.mp h
      split at h
      · exact Nat.le_trans (takeString_length h) (takeBytes_length hy)
      · cases h
        exact takeBytes_length hy
  · obtain ⟨y, hy, rfl⟩ := Option.map_eq_some_iff.mp h
    exact takeArraySize_length hy
  · cases h

/-! ### Read blocks and the bytes that are left -/

/-- A range that lies inside a buffer. -/
def InRange (len : ℤ) (range : ℤ × ℤ) : Prop :=
  0 ≤ range.1 ∧ 0 ≤ range.2 ∧ range.1 + range.2 ≤ len

/-- The bytes left to a read block of a buffer of length `len`, all of whose reads have been inside. -/
structure At (len : ℤ) (rb : ReadBlock) (rest : List UInt8) : Prop where
  ptr_nonneg : 0 ≤ rb.ptr
  prefix_drop : rest <+: rb.buffer.drop rb.ptr.toNat
  len_eq : rb.len = rest.length
  ptr_add_len : rb.ptr + rb.len = len
  reads : ∀ range ∈ rb.reads, InRange len range

/-- What a reader does where there is something to take: it takes it; or where there is nothing: it raises
the error for an invalid stream, and all it has read was inside the buffer. -/
inductive Takes {α : Type} (len : ℤ) :
    EStateM.Result UnpackError ReadBlock α → Option (α × List UInt8) → Prop
  | ok {a : α} {rb : ReadBlock} {rest : List UInt8} (hat : At len rb rest) :
      Takes len (.ok a rb) (some (a, rest))
  | error {e : UnpackError} {rb : ReadBlock} (he : e.Invalid)
      (hreads : ∀ range ∈ rb.reads, InRange len range) : Takes len (.error e rb) none

/-- The reader takes from the bytes that are left what `p` does. -/
def Agrees {α : Type} (r : Reader α) (p : List UInt8 → Option (α × List UInt8)) : Prop :=
  ∀ ⦃len : ℤ⦄ ⦃rb : ReadBlock⦄ ⦃bs : List UInt8⦄, At len rb bs → Takes len (r rb) (p bs)

section

variable {α β : Type} {len : ℤ} {rb : ReadBlock} {bs : List UInt8}

theorem Takes.exists_ok {x : EStateM.Result UnpackError ReadBlock α} {a : α} {rest : List UInt8}
    (h : Takes len x (some (a, rest))) :
  ∃ rb', x = .ok a rb' ∧ At len rb' rest
  := by
  cases h with
  | ok hat => exact ⟨_, rfl, hat⟩

theorem Takes.exists_error {x : EStateM.Result UnpackError ReadBlock α} (h : Takes len x none) :
  ∃ e rb', x = .error e rb' ∧ e.Invalid ∧ ∀ range ∈ rb'.reads, InRange len range
  := by
  cases h with
  | error he hreads => exact ⟨_, _, rfl, he, hreads⟩

theorem bind_of_ok {r : Reader α} {f : α → Reader β} {a : α} {rb' : ReadBlock}
    (h : r rb = .ok a rb') :
  (r >>= f) rb = f a rb'
  := by
  change EStateM.bind r f rb = f a rb'
  rw [EStateM.bind, h]

theorem bind_of_error {r : Reader α} {f : α → Reader β} {e : UnpackError} {rb' : ReadBlock}
    (h : r rb = .error e rb') :
  (r >>= f) rb = .error e rb'
  := by
  change EStateM.bind r f rb = .error e rb'
  rw [EStateM.bind, h]

theorem Agrees.pure (a : α) :
  Agrees (pure a) fun bs => some (a, bs)
  := fun _ _ _ hat => .ok hat

theorem Agrees.invalidStream (line : ℕ) :
  Agrees (invalidStream line : Reader α) fun _ => none
  := fun _ _ _ hat => .error trivial hat.reads

theorem Agrees.bind {r : Reader α} {p : List UInt8 → Option (α × List UInt8)} {f : α → Reader β}
    {q : α → List UInt8 → Option (β × List UInt8)} (h : Agrees r p) (hf : ∀ a, Agrees (f a) (q a)) :
  Agrees (r >>= f) fun bs => (p bs).bind fun x => q x.1 x.2
  := by
  intro len rb bs hat
  change Takes len ((r >>= f) rb) ((p bs).bind fun x => q x.1 x.2)
  have hr := h hat
  cases hp : p bs with
  | none =>
      rw [hp] at hr
      obtain ⟨e, rb', hr, he, hreads⟩ := hr.exists_error
      rw [bind_of_error hr]
      exact .error he hreads
  | some x =>
      rw [hp] at hr
      obtain ⟨rb', hr, hat'⟩ := hr.exists_ok
      rw [bind_of_ok hr]
      exact hf x.1 hat'

theorem Agrees.map {r : Reader α} {p : List UInt8 → Option (α × List UInt8)} (h : Agrees r p)
    (f : α → β) :
  Agrees (r >>= fun a => Pure.pure (f a)) fun bs => (p bs).map fun x => (f x.1, x.2)
  := by
  have hbind := h.bind (q := fun a bs => some (f a, bs)) fun a => Agrees.pure (f a)
  intro len rb bs hat
  change Takes len _ ((p bs).map fun x => (f x.1, x.2))
  rw [Option.map_eq_bind]
  exact hbind hat

/-! ### The readers of the source -/

/-- The read block after a read. -/
theorem At.read (hat : At len rb bs) {k : ℕ} (hk : k ≤ bs.length) :
  At len { rb with ptr := rb.ptr + k, len := rb.len - k, reads := rb.reads ++ [(rb.ptr, (k : ℤ))] }
    (bs.drop k)
  := by
  have hptr := hat.ptr_nonneg
  have htotal := hat.ptr_add_len
  have hlen := hat.len_eq
  constructor
  · exact Int.add_nonneg hptr (Int.natCast_nonneg k)
  · obtain ⟨after, hafter⟩ := hat.prefix_drop
    have hadd : (rb.ptr + k).toNat = rb.ptr.toNat + k := Int.toNat_add_nat hptr k
    change bs.drop k <+: rb.buffer.drop (rb.ptr + k).toNat
    rw [hadd, ← List.drop_drop, ← hafter, List.drop_append_of_le_length hk]
    exact List.prefix_append _ _
  · change rb.len - k = _
    rw [hlen, List.length_drop]
    omega
  · change rb.ptr + k + (rb.len - k) = len
    omega
  · intro range hrange
    rcases List.mem_append.mp hrange with hold | hnew
    · exact hat.reads range hold
    · rw [List.mem_singleton.mp hnew]
      use hptr, Int.natCast_nonneg k
      change rb.ptr + k ≤ len
      omega

theorem rbRead_of_lt {sz : ℤ} (h : rb.len < sz) :
  rbRead sz rb = .ok none rb
  := by
  change (if rb.len < sz then _ else _ : Reader _) rb = _
  rw [if_pos h]
  rfl

theorem rbRead_of_le {sz : ℤ} (h : ¬ rb.len < sz) :
  rbRead sz rb = .ok (some rb.ptr)
    { rb with ptr := rb.ptr + sz, len := rb.len - sz, reads := rb.reads ++ [(rb.ptr, sz)] }
  := by
  change (if rb.len < sz then _ else _ : Reader _) rb = _
  rw [if_neg h]
  rfl

/-- What is at the position of a read block. -/
theorem At.bytesAt (hat : At len rb bs) {k : ℕ} (hk : k ≤ bs.length) :
  bytesAt rb.buffer rb.ptr k = bs.take k
  := by
  obtain ⟨after, hafter⟩ := hat.prefix_drop
  rw [Seri.bytesAt, ← hafter, Int.toNat_natCast, List.take_append_of_le_length hk]

theorem readBytes_agrees (k line : ℕ) :
  Agrees (readBytes k line) (takeBytes k)
  := by
  intro len rb bs hat
  have hlen : rb.len < (k : ℤ) ↔ bs.length < k := by
    rw [hat.len_eq]
    omega
  unfold takeBytes readBytes
  split_ifs with hshort
  · rw [bind_of_ok (rbRead_of_lt (hlen.mpr hshort))]
    exact .error trivial hat.reads
  · have hk : k ≤ bs.length := Nat.le_of_not_lt hshort
    rw [bind_of_ok (rbRead_of_le fun h => hshort (hlen.mp h)), ← hat.bytesAt hk]
    exact .ok (hat.read hk)

theorem readByte_agrees (line : ℕ) :
  Agrees (readByte line) fun bs => match bs with
    | [] => none
    | b :: bs => some (b, bs)
  := by
  have hbytes := (readBytes_agrees 1 line).map fun bs => bs.headD 0
  intro len rb bs hat
  have hr := hbytes hat
  cases bs with
  | nil => exact hr
  | cons b bs => exact hr

theorem getInteger_agrees (cookie : ℕ) :
  Agrees (getInteger cookie) (takeInteger cookie)
  := by
  have hbytes (k line : ℕ) (f : ℕ → ℤ) :
      Agrees (readBytes k line >>= fun n => Pure.pure (f (LittleEndian.decode n))) fun bs =>
        (takeBytes k bs).map fun x => (f (LittleEndian.decode x.1), x.2) :=
    (readBytes_agrees k line).map fun n => f (LittleEndian.decode n)
  intro len rb bs hat
  unfold getInteger
  split
  · exact Agrees.pure 0 hat
  · exact hbytes 1 _ (fun n => n) hat
  · exact hbytes 2 _ (fun n => n) hat
  · exact hbytes 4 _ (fun n => (n : ℤ).bmod (2 ^ 32)) hat
  · exact hbytes 8 _ (fun n => (n : ℤ).bmod (2 ^ 64)) hat
  · have hnone : takeInteger cookie bs = none := by
      unfold takeInteger
      split <;> first | rfl | contradiction
    rw [hnone]
    exact Agrees.invalidStream 397 hat

theorem getReal_agrees :
  Agrees getReal fun bs =>
    (takeBytes 8 bs).map fun x => (UInt64.ofNat (LittleEndian.decode x.1), x.2)
  := (readBytes_agrees 8 407).map fun n => UInt64.ofNat (LittleEndian.decode n)

theorem getPointer_agrees :
  Agrees getPointer fun bs =>
    (takeBytes 8 bs).map fun x => (UInt64.ofNat (LittleEndian.decode x.1), x.2)
  := (readBytes_agrees 8 417).map fun n => UInt64.ofNat (LittleEndian.decode n)

/-- Of a size that is not negative. -/
theorem getBuffer_agrees (n : ℕ) :
  Agrees (getBuffer n) fun bs => (takeBytes n bs).map fun x => (.string x.1, x.2)
  := by
  have hnonneg : ¬ (n : ℤ) < 0 := Int.not_lt.mpr (Int.natCast_nonneg n)
  unfold getBuffer
  simp only [if_neg hnonneg]
  exact (readBytes_agrees n 427).map Value.string

theorem arraySize_agrees (cookie : ℕ) :
  Agrees (arraySize cookie) (takeArraySize cookie)
  := by
  have hcookie : (cookie : ℤ) = ((MAX_COOKIE : ℕ) : ℤ) - 1 ↔ cookie = MAX_COOKIE - 1 := by
    unfold MAX_COOKIE
    omega
  unfold arraySize takeArraySize
  split_ifs with hint hnat hnat
  · have hsize := (readByte_agrees 440).bind fun type =>
      show Agrees (if typeOf type ≠ TYPE_NUMBER ∨ cookieOf type = TYPE_NUMBER_REAL then
            Seri.invalidStream 445
          else getInteger (cookieOf type) >>= fun n => Pure.pure (toInt n)) fun bs =>
        if typeOf type ≠ TYPE_NUMBER ∨ cookieOf type = TYPE_NUMBER_REAL then Option.none
        else (takeInteger (cookieOf type) bs).map fun x => (toInt x.1, x.2) by
        split_ifs with hbad
        · exact Agrees.invalidStream 445
        · exact (getInteger_agrees (cookieOf type)).map toInt
    intro len rb bs hat
    have hr := hsize hat
    cases bs with
    | nil => exact hr
    | cons type bs => exact hr
  · exact absurd (hcookie.mp hint) hnat
  · exact absurd (hcookie.mpr hnat) hint
  · exact Agrees.pure (cookie : ℤ)

/-! ### One token -/

/-- What the reader of a value that is not a table does where there is a token: it takes a plain value and
refuses a huge string; where there is none, it raises the error for an invalid stream. -/
inductive TakesToken (len : ℤ) :
    EStateM.Result UnpackError ReadBlock Value → Option (Token × List UInt8) → Prop
  | plain {v : Value} {rb : ReadBlock} {rest : List UInt8} (hat : At len rb rest) :
      TakesToken len (.ok v rb) (some (.plain v, rest))
  | huge {rb : ReadBlock} {rest : List UInt8} : TakesToken len (.error .tooBig rb) (some (.huge, rest))
  | invalid {e : UnpackError} {rb : ReadBlock} (he : e.Invalid)
      (hreads : ∀ range ∈ rb.reads, InRange len range) : TakesToken len (.error e rb) none

theorem TakesToken.exists_ok {x : EStateM.Result UnpackError ReadBlock Value} {v : Value}
    {rest : List UInt8} (h : TakesToken len x (some (.plain v, rest))) :
  ∃ rb', x = .ok v rb' ∧ At len rb' rest
  := by
  cases h with
  | plain hat => exact ⟨_, rfl, hat⟩

theorem Agrees.takesToken {r : Reader Value} {q : List UInt8 → Option (Value × List UInt8)}
    (h : Agrees r q) (hat : At len rb bs) {token : Option (Token × List UInt8)}
    (htoken : token = (q bs).map fun x => (.plain x.1, x.2)) :
  TakesToken len (r rb) token
  := by
  have hr := h hat
  rw [htoken]
  cases hq : q bs with
  | none =>
      rw [hq] at hr
      obtain ⟨e, rb', hr, he, hreads⟩ := hr.exists_error
      rw [hr]
      exact .invalid he hreads
  | some x =>
      rw [hq] at hr
      obtain ⟨rb', hr, hat'⟩ := hr.exists_ok
      rw [hr]
      exact .plain hat'

/-- A size that was negative is refused, after a range of that size has been handed out. -/
theorem getBuffer_of_neg (hat : At len rb bs) {n : ℤ} (hn : n < 0) :
  ∃ rb', getBuffer n rb = .error .tooBig rb'
  := by
  have hlen : ¬ rb.len < n := by
    rw [hat.len_eq]
    omega
  have hread : ∃ x rb', readBytes n 427 rb = .ok x rb' := by
    rw [readBytes, bind_of_ok (rbRead_of_le hlen)]
    exact ⟨_, _, rfl⟩
  obtain ⟨x, rb', hread⟩ := hread
  use rb'
  rw [getBuffer, bind_of_ok hread, if_pos hn]
  rfl

theorem getBuffer_takes (hat : At len rb bs) (n : ℕ) :
  TakesToken len (getBuffer n rb) (takeString n bs)
  := by
  apply (getBuffer_agrees n).takesToken hat
  rw [takeString, Option.map_map]
  rfl

/-- A long string with four bytes of length. -/
theorem longString_takes (hat : At len rb bs) :
  TakesToken len ((readBytes 4 504 >>= fun n => getBuffer (toInt (LittleEndian.decode n))) rb)
    (takeToken TYPE_LONG_STRING 4 bs)
  := by
  have hread := readBytes_agrees 4 504 hat
  have htoken : takeToken TYPE_LONG_STRING 4 bs = (takeBytes 4 bs).bind fun x =>
      if LittleEndian.decode x.1 < 2 ^ 31 then takeString (LittleEndian.decode x.1) x.2
      else some (.huge, x.2) := rfl
  rw [htoken]
  cases hx : takeBytes 4 bs with
  | none =>
      rw [hx] at hread
      obtain ⟨e, rb', hr, he, hreads⟩ := hread.exists_error
      have hr' : readBytes 4 504 rb = .error e rb' := hr
      rw [bind_of_error hr']
      exact .invalid he hreads
  | some x =>
      rw [hx] at hread
      obtain ⟨rb', hr, hat'⟩ := hread.exists_ok
      have hr' : readBytes 4 504 rb = .ok x.1 rb' := hr
      have hbytes : LittleEndian.decode x.1 < 2 ^ 32 := by
        have hlt := LittleEndian.decode_lt x.1
        rwa [takeBytes_fst hx] at hlt
      rw [bind_of_ok hr', Option.bind_some]
      split_ifs with hsmall
      · rw [toInt_of_lt hsmall]
        exact getBuffer_takes hat' _
      · obtain ⟨rb'', hbig⟩ := getBuffer_of_neg hat' (toInt_of_ge (Nat.le_of_not_lt hsmall) hbytes)
        rw [hbig]
        exact .huge

/-- The value after a type and a cookie, when it is not a table. -/
theorem pushValue_takes (room : ℕ → Bool) (one : ℕ → Reader Value) (top : ℕ) {type : ℕ}
    (htype : type ≠ TYPE_TABLE) (cookie : ℕ) (hat : At len rb bs) :
  TakesToken len (pushValue room one top type cookie rb) (takeToken type cookie bs)
  := by
  unfold pushValue
  split
  · exact (Agrees.pure Value.nil).takesToken hat rfl
  · exact (Agrees.pure (Value.boolean (cookie ≠ 0))).takesToken hat rfl
  · split_ifs with hreal
    · apply (getReal_agrees.map Value.number).takesToken hat
      simp only [takeToken, if_pos hreal, Option.map_map]
      rfl
    · apply ((getInteger_agrees cookie).map fun n => Value.integer (Int64.ofInt n)).takesToken hat
      simp only [takeToken, if_neg hreal, Option.map_map]
      rfl
  · apply (getPointer_agrees.map Value.lightuserdata).takesToken hat
    simp only [takeToken, Option.map_map]
    rfl
  · exact getBuffer_takes hat cookie
  · split_ifs with htwo hfour
    · have hshort := (readBytes_agrees 2 493).bind fun n =>
        getBuffer_agrees (LittleEndian.decode n)
      apply hshort.takesToken hat
      simp only [takeToken, if_pos htwo, takeString, Option.map_bind, Function.comp_def,
        Option.map_map]
    · apply (Agrees.invalidStream 500).takesToken hat
      simp only [takeToken, if_neg htwo, if_neg hfour]
      rfl
    · rw [not_not.mp hfour]
      exact longString_takes hat
  · exact absurd rfl htype
  · have hnone : takeToken type cookie bs = none := by
      unfold takeToken
      split <;> first | rfl | contradiction
    rw [hnone]
    exact (Agrees.invalidStream 517).takesToken hat rfl

/-! ### The loop over the buffer -/

/-- The read block of a buffer of which `len` bytes are to be read. -/
theorem at_start {buffer : List UInt8} {len : ℤ} (hnonneg : 0 ≤ len) (hle : len ≤ buffer.length) :
  At len ⟨buffer, len, 0, []⟩ (buffer.take len.toNat)
  := by
  constructor
  · exact Int.le_refl 0
  · exact List.take_prefix _ buffer
  · change len = _
    rw [List.length_take]
    omega
  · exact Int.zero_add len
  · exact fun _ hrange => nomatch hrange

variable {room : ℕ → Bool} {base : ℕ} {vs : List Value}

/-- The check before every eighth value, where there is room. -/
theorem eighth_of_room (hroom : vs.length % 8 = 7 → room (base + vs.length) = true) :
  (if vs.length % 8 = 7 then checkstack room (base + vs.length) else Pure.pure ()) rb = .ok () rb
  := by
  split_ifs with hseven
  · rw [checkstack, hroom hseven]
    rfl
  · rfl

theorem unpackAll_nil (level rounds : ℕ) (hroom : vs.length % 8 = 7 → room (base + vs.length) = true)
    (hat : At len rb []) :
  unpackAll room level base (rounds + 1) vs rb = .ok vs rb
  := by
  have hend : rb.len < 1 := by
    rw [hat.len_eq]
    decide
  rw [unpackAll, bind_of_ok (eighth_of_room hroom), bind_of_ok (rbRead_of_lt hend)]
  rfl

theorem unpackAll_cons (level rounds : ℕ) (hroom : vs.length % 8 = 7 → room (base + vs.length) = true)
    {type : UInt8} (hat : At len rb (type :: bs)) :
  ∃ rb', At len rb' bs ∧ unpackAll room level base (rounds + 1) vs rb =
    (pushValue room (unpackOne room level) (base + vs.length) (typeOf type) (cookieOf type) >>=
      fun v => unpackAll room level base rounds (vs ++ [v])) rb'
  := by
  have hmore : ¬ rb.len < 1 := by
    rw [hat.len_eq, List.length_cons]
    omega
  have hone : 1 ≤ (type :: bs).length := Nat.succ_le_succ (Nat.zero_le _)
  have hbyte : (Seri.bytesAt rb.buffer rb.ptr 1).headD 0 = type :=
    congrArg (fun bs : List UInt8 => bs.headD 0) (hat.bytesAt hone)
  refine ⟨_, hat.read hone, ?_⟩
  rw [unpackAll, bind_of_ok (eighth_of_room hroom), bind_of_ok (rbRead_of_le hmore)]
  change (pushValue room (unpackOne room level) (base + vs.length)
    (typeOf ((Seri.bytesAt rb.buffer rb.ptr 1).headD 0))
    (cookieOf ((Seri.bytesAt rb.buffer rb.ptr 1).headD 0)) >>=
      fun v => unpackAll room level base rounds (vs ++ [v])) _ = _
  rw [hbyte]
  rfl

end

end Seri
