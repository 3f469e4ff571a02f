import FWServer.Seri.Stream
import Mathlib.Tactic.Use

/-!
# What unpacking does to an arbitrary buffer

The bytes of a buffer are read token by token, and a `Position` says what the next value is for: the slots
of the tables that are open, and the number of values outside of them.  `safe` goes through the tokens until
the bytes end or are no token, and fails at the head of a huge string, at a value whose key is a NaN, and
where the stack has no room.

`Follows` ties a reader to `safe`: a reader that goes on leaves what is safe to what follows, and one that
stops with an error other than an invalid stream stops at a failure.  Each function of the source follows,
given that what it calls does; the levels and rounds of the model are enough because every value takes a
byte.
-/

namespace Seri

open LittleEndian (toInt toInt_le)

/-! ### Positions -/

/-- What the next value of a table is for: an element, with so many to come before the keys; or the value of
a key.  When no elements are to come, it is a key or the end. -/
inductive Slot where
  | element (left : ℕ)
  | value (nan : Bool)

/-- What a table puts on the stack: itself, and the key whose value is next. -/
def Slot.height : Slot → ℕ
  | .element _ => 1
  | .value _ => 2

/-- Where the next value goes: the slots of the open tables, innermost first, and the number of values
outside of them that are complete. -/
structure Position where
  values : ℕ
  tables : List Slot

namespace Position

/-- The height of the stack. -/
def height (base : ℕ) (p : Position) : ℕ :=
  base + p.values + (p.tables.map Slot.height).sum

/-- The position in a table whose array part has the size given. -/
def opened (p : Position) (array_size : ℤ) : Position :=
  ⟨p.values, .element array_size.toNat :: p.tables⟩

/-- The position after a value that is not `nil`, unless it belongs to a NaN. -/
def put (nan : Bool) : Position → Option Position
  | ⟨n, []⟩ => some ⟨n + 1, []⟩
  | ⟨n, .element 0 :: ts⟩ => some ⟨n, .value nan :: ts⟩
  | ⟨n, .element (k + 1) :: ts⟩ => some ⟨n, .element k :: ts⟩
  | ⟨n, .value bad :: ts⟩ => if bad then none else some ⟨n, .element 0 :: ts⟩

/-- The position after a value; a `nil` in place of a key ends the table. -/
def place (v : Value) : Position → Option Position
  | ⟨n, .element 0 :: ts⟩ => if v.isNil then put false ⟨n, ts⟩ else put v.isNaN ⟨n, .element 0 :: ts⟩
  | p => put v.isNaN p

end Position

/-! ### Safe streams -/

section

variable (room : ℕ → Bool) (base : ℕ)

/-- From the position given, the tokens up to the end of the bytes or the first that is malformed are neither
the head of a huge string nor the end of a value that belongs to a NaN, and there is room on the stack where
it is checked for. -/
def safe (p : Position) (bs : List UInt8) : Bool :=
  if p.tables = [] ∧ p.values % 8 = 7 ∧ room (p.height base) = false then false
  else
    match bs with
    | [] => true
    | type :: bs =>
        match _h : takeToken (typeOf type) (cookieOf type) bs with
        | none => true
        | some (.huge, _) => false
        | some (.plain v, rest) =>
            match p.place v with
            | none => false
            | some q => safe q rest
        | some (.table array_size, rest) =>
            room (p.height base) && safe (p.opened array_size) rest
termination_by bs.length
decreasing_by
  all_goals exact Nat.lt_succ_of_le (takeToken_length _h)

/-- It is safe to go on after a value. -/
def safeAfter (p : Position) (v : Value) (rest : List UInt8) : Bool :=
  match p.place v with
  | none => false
  | some q => safe room base q rest

/-- It is safe to go on with a token. -/
def safeToken (p : Position) : Option (Token × List UInt8) → Bool
  | none => true
  | some (.huge, _) => false
  | some (.plain v, rest) => safeAfter room base p v rest
  | some (.table array_size, rest) =>
      room (p.height base) && safe room base (p.opened array_size) rest

variable {room base}

/-- Where there is room on the stack, the next token decides. -/
theorem safe_cons {p : Position} {type : UInt8} {bs : List UInt8}
    (hroom : p.tables = [] → p.values % 8 = 7 → room (p.height base) = true) :
  safe room base p (type :: bs) =
    safeToken room base p (takeToken (typeOf type) (cookieOf type) bs)
  := by
  have hcheck : ¬ (p.tables = [] ∧ p.values % 8 = 7 ∧ room (p.height base) = false) := by
    rintro ⟨htables, hvalues, hfull⟩
    rw [hroom htables hvalues] at hfull
    cases hfull
  rw [safe, if_neg hcheck]
  split
  · rename_i h
    rw [h, safeToken]
  · rename_i h
    rw [h, safeToken]
  · rename_i h
    rw [h, safeToken, safeAfter]
  · rename_i h
    rw [h, safeToken]

theorem safe_nil {p : Position}
    (hroom : p.tables = [] → p.values % 8 = 7 → room (p.height base) = true) :
  safe room base p [] = true
  := by
  have hcheck : ¬ (p.tables = [] ∧ p.values % 8 = 7 ∧ room (p.height base) = false) := by
    rintro ⟨htables, hvalues, hfull⟩
    rw [hroom htables hvalues] at hfull
    cases hfull
  rw [safe, if_neg hcheck]

end

/-! ### Readers that follow -/

/-- The outcome of a reader started where it was safe to go on if `b` is true: if it goes on, `after` is as
safe, and fewer than `size` bytes are left; if it raises the error for an invalid stream it was safe, and if
it raises another error it was not. -/
inductive Follows {α : Type} (len : ℤ) (size : ℕ) (b : Bool) (after : α → List UInt8 → Bool) :
    EStateM.Result UnpackError ReadBlock α → Prop
  | ok {a : α} {rb : ReadBlock} {rest : List UInt8} (hat : At len rb rest) (hsize : rest.length < size)
      (hb : b = after a rest) : Follows len size b after (.ok a rb)
  | invalid {e : UnpackError} {rb : ReadBlock} (he : e.Invalid)
      (hreads : ∀ range ∈ rb.reads, InRange len range) (hb : b = true) :
      Follows len size b after (.error e rb)
  | fails {e : UnpackError} {rb : ReadBlock} (he : ¬ e.Invalid) (htime : e ≠ .timeout)
      (hb : b = false) : Follows len size b after (.error e rb)

section

variable {α β : Type} {len : ℤ} {size : ℕ} {rb : ReadBlock} {bs : List UInt8}

theorem Follows.bind {m : ℕ} {b : Bool} {after : α → List UInt8 → Bool}
    {after' : β → List UInt8 → Bool} {r : Reader α} {f : α → Reader β}
    (h : Follows len m b after (r rb))
    (hf : ∀ a rb' rest, At len rb' rest → rest.length < m →
      Follows len size (after a rest) after' (f a rb')) :
  Follows len size b after' ((r >>= f) rb)
  := by
  cases hr : r rb with
  | ok a rb' =>
      rw [hr] at h
      rw [bind_of_ok hr]
      cases h with
      | ok hat hsize hb =>
          rw [hb]
          exact hf a rb' _ hat hsize
  | error e rb' =>
      rw [hr] at h
      rw [bind_of_error hr]
      cases h with
      | invalid he hreads hb => exact .invalid he hreads hb
      | fails he htime hb => exact .fails he htime hb

theorem Follows.mono {m : ℕ} {b : Bool} {after : α → List UInt8 → Bool}
    {x : EStateM.Result UnpackError ReadBlock α} (h : Follows len m b after x) (hm : m ≤ size) :
  Follows len size b after x
  := by
  cases h with
  | ok hat hsize hb => exact .ok hat (Nat.le_trans hsize hm) hb
  | invalid he hreads hb => exact .invalid he hreads hb
  | fails he htime hb => exact .fails he htime hb

/-- A reader of the bytes that are left follows what is safe after them. -/
theorem Agrees.follows {r : Reader α} {p : List UInt8 → Option (α × List UInt8)} (h : Agrees r p)
    (hat : At len rb bs) (hsize : ∀ x, p bs = some x → x.2.length < size)
    (after : α → List UInt8 → Bool) :
  Follows len size ((p bs).elim true fun x => after x.1 x.2) after (r rb)
  := by
  have hr := h hat
  cases hp : p bs with
  | none =>
      rw [hp] at hr
      obtain ⟨e, rb', hr, he, hreads⟩ := hr.exists_error
      rw [hr]
      exact .invalid he hreads rfl
  | some x =>
      rw [hp] at hr
      obtain ⟨rb', hr, hat'⟩ := hr.exists_ok
      rw [hr]
      exact .ok hat' (hsize x hp) rfl

/-! ### The functions of the source -/

variable {room : ℕ → Bool} {base level : ℕ} {p : Position}

/-- A table is neither `nil` nor a NaN, whatever is in it. -/
theorem safeAfter_table (entries : List (Value × Value)) (rest : List UInt8) :
  safeAfter room base p (.table entries) rest =
    match p.put false with
    | none => false
    | some q => safe room base q rest
  := by
  obtain ⟨n, _ | ⟨(_ | _) | _, _⟩⟩ := p <;> rfl

/-- What `unpack_one` is asked to do inside of tables, with fewer than `level` bytes left. -/
def OneFollows (room : ℕ → Bool) (base level : ℕ) (one : ℕ → Reader Value) : Prop :=
  ∀ ⦃p : Position⦄ ⦃len : ℤ⦄ ⦃rb : ReadBlock⦄ ⦃bs : List UInt8⦄, p.tables ≠ [] → At len rb bs →
    bs.length < level →
    Follows len bs.length (safe room base p bs) (safeAfter room base p) (one (p.height base) rb)

theorem unpackArray_follows {one : ℕ → Reader Value} (hone : OneFollows room base level one)
    (n : ℕ) (ts : List Slot) (k i : ℕ) (entries : List (Value × Value)) (hat : At len rb bs)
    (hlevel : bs.length < level) :
  Follows len (bs.length + 1) (safe room base ⟨n, .element k :: ts⟩ bs)
    (fun _ rest => safe room base ⟨n, .element 0 :: ts⟩ rest)
    (unpackArray (one ((Position.mk n (.element k :: ts)).height base)) k i entries rb)
  := by
  induction k generalizing i entries rb bs with
  | zero => exact .ok hat (Nat.lt_succ_self _) rfl
  | succ k ih =>
      rw [unpackArray]
      apply Follows.bind (hone (List.cons_ne_nil _ _) hat hlevel)
      intro v rb' rest hat' hrest
      have hplace : Position.place v ⟨n, .element (k + 1) :: ts⟩ = some ⟨n, .element k :: ts⟩ := rfl
      have hloop := ih (i + 1) (Value.set entries (.integer (Int64.ofNat i)) v) hat'
        (Nat.lt_trans hrest hlevel)
      rw [safeAfter, hplace]
      exact hloop.mono (by omega)

/-- The keys and values of a table, and what is safe once it is complete. -/
theorem unpackHash_follows {one : ℕ → Reader Value} (hone : OneFollows room base level one)
    (n : ℕ) (ts : List Slot) (rounds : ℕ) (entries : List (Value × Value)) (hat : At len rb bs)
    (hlevel : bs.length < level) (hrounds : bs.length < rounds) :
  Follows len (bs.length + 1) (safe room base ⟨n, .element 0 :: ts⟩ bs)
    (fun es rest => safeAfter room base ⟨n, ts⟩ (.table es) rest)
    (unpackHash (one ((Position.mk n (.element 0 :: ts)).height base))
      (one ((Position.mk n (.value false :: ts)).height base)) rounds entries rb)
  := by
  induction rounds generalizing entries rb bs with
  | zero => exact absurd hrounds (Nat.not_lt_zero _)
  | succ rounds ih =>
      rw [unpackHash]
      apply Follows.bind (hone (List.cons_ne_nil _ _) hat hlevel)
      intro k rb₁ rest₁ hat₁ hrest₁
      by_cases hnil : k.isNil = true
      · have hplace : Position.place k ⟨n, .element 0 :: ts⟩ = Position.put false ⟨n, ts⟩ := if_pos hnil
        rw [if_pos hnil, safeAfter, hplace]
        exact .ok hat₁ (by omega) (safeAfter_table entries rest₁).symm
      · have hplace : Position.place k ⟨n, .element 0 :: ts⟩ = some ⟨n, .value k.isNaN :: ts⟩ :=
          if_neg hnil
        rw [if_neg hnil, safeAfter, hplace]
        apply Follows.bind (hone (List.cons_ne_nil _ _) hat₁ (Nat.lt_trans hrest₁ hlevel))
        intro v rb₂ rest₂ hat₂ hrest₂
        rw [safeAfter, rawset]
        cases hnan : k.isNaN with
        | true => exact .fails (fun he => he) nofun rfl
        | false =>
            have hloop := ih (Value.set entries k v) hat₂ (by omega) (by omega)
            exact hloop.mono (by omega)

/-- A whole table after its cookie. -/
theorem unpackTable_follows {one : ℕ → Reader Value} (hone : OneFollows room base level one)
    (cookie : ℕ) (hat : At len rb bs) (hlevel : bs.length < level) :
  Follows len (bs.length + 1)
    (safeToken room base p ((takeArraySize cookie bs).map fun x => (.table x.1, x.2)))
    (safeAfter room base p) (unpackTable room one (p.height base) cookie rb)
  := by
  have hlt (x : ℤ × List UInt8) (hx : takeArraySize cookie bs = some x) :
      x.2.length < bs.length + 1 := Nat.lt_succ_of_le (takeArraySize_length hx)
  have hsize := (arraySize_agrees cookie).follows hat hlt
    fun n rest => room (p.height base) && safe room base (p.opened n) rest
  have hb : safeToken room base p ((takeArraySize cookie bs).map fun x => (.table x.1, x.2)) =
      (takeArraySize cookie bs).elim true fun x =>
        room (p.height base) && safe room base (p.opened x.1) x.2 := by
    cases takeArraySize cookie bs <;> rfl
  rw [unpackTable, hb]
  apply Follows.bind hsize
  intro n rb₁ rest₁ hat₁ hrest₁
  cases hfull : room (p.height base) with
  | false =>
      have hcheck : checkstack room (p.height base) rb₁ = .error .stackOverflow rb₁ := by
        rw [checkstack, hfull]
        rfl
      rw [bind_of_error hcheck]
      exact .fails (fun he => he) (by rintro ⟨⟩) rfl
  | true =>
      have hcheck : checkstack room (p.height base) rb₁ = .ok () rb₁ := by
        rw [checkstack, hfull]
        rfl
      have hheight (s : Slot) :
          (Position.mk p.values (s :: p.tables)).height base = p.height base + s.height := by
        simp only [Position.height, List.map_cons, List.sum_cons]
        omega
      have harray := unpackArray_follows hone p.values p.tables n.toNat 1 [] hat₁ (by omega)
      rw [bind_of_ok hcheck, Bool.true_and]
      rw [hheight] at harray
      apply Follows.bind harray
      intro entries rb₂ rest₂ hat₂ hrest₂
      have hrounds : rest₂.length < rb₂.len.toNat + 1 := by
        rw [hat₂.len_eq]
        exact Nat.lt_succ_self _
      have hhash := unpackHash_follows hone p.values p.tables (rb₂.len.toNat + 1) entries hat₂
        (by omega) hrounds
      rw [hheight, hheight] at hhash
      have hget : (get : Reader ReadBlock) rb₂ = .ok rb₂ rb₂ := rfl
      rw [bind_of_ok hget]
      apply Follows.bind hhash
      intro es rb₃ rest₃ hat₃ hrest₃
      exact .ok hat₃ (by omega) rfl

/-- A value that is not a table. -/
theorem TakesToken.follows {x : EStateM.Result UnpackError ReadBlock Value}
    {token : Option (Token × List UInt8)} (h : TakesToken len x token)
    (hsize : ∀ y, token = some y → y.2.length < size) :
  Follows len size (safeToken room base p token) (safeAfter room base p) x
  := by
  cases h with
  | plain hat => exact .ok hat (hsize _ rfl) rfl
  | huge => exact .fails (fun he => he) nofun rfl
  | invalid he hreads => exact .invalid he hreads rfl

/-- The value after a type and a cookie. -/
theorem pushValue_follows {one : ℕ → Reader Value} (hone : OneFollows room base level one)
    (type cookie : ℕ) (hat : At len rb bs) (hlevel : bs.length < level) :
  Follows len (bs.length + 1) (safeToken room base p (takeToken type cookie bs))
    (safeAfter room base p) (pushValue room one (p.height base) type cookie rb)
  := by
  by_cases htype : type = TYPE_TABLE
  · rw [htype]
    exact unpackTable_follows hone cookie hat hlevel
  · apply (pushValue_takes room one (p.height base) htype cookie hat).follows
    exact fun y hy => Nat.lt_succ_of_le (takeToken_length hy)

/-- A level for each byte, and one more, is enough to read a value. -/
theorem unpackOne_follows (level : ℕ) :
  OneFollows room base level (unpackOne room level)
  := by
  induction level with
  | zero =>
      intro p len rb bs hp hat hlevel
      exact absurd hlevel (Nat.not_lt_zero _)
  | succ level ih =>
      intro p len rb bs hp hat hlevel
      have hbyte := readByte_agrees 528 hat
      have hroom : p.tables = [] → p.values % 8 = 7 → room (p.height base) = true :=
        fun htables => absurd htables hp
      rw [unpackOne]
      cases bs with
      | nil =>
          obtain ⟨e, rb', hr, he, hreads⟩ := hbyte.exists_error
          rw [bind_of_error hr]
          exact .invalid he hreads (safe_nil hroom)
      | cons type bs =>
          obtain ⟨rb', hr, hat'⟩ := hbyte.exists_ok
          rw [bind_of_ok hr, safe_cons hroom]
          exact pushValue_follows ih _ _ hat' (Nat.lt_of_succ_lt_succ hlevel)

/-- The loop over the whole buffer. -/
theorem unpackAll_follows (rounds : ℕ) (vs : List Value) (hat : At len rb bs)
    (hlevel : bs.length ≤ level) (hrounds : bs.length < rounds) :
  Follows len (bs.length + 1) (safe room base ⟨vs.length, []⟩ bs) (fun _ _ => true)
    (unpackAll room level base rounds vs rb)
  := by
  induction rounds generalizing vs rb bs with
  | zero => exact absurd hrounds (Nat.not_lt_zero _)
  | succ rounds ih =>
      have hheight : (Position.mk vs.length []).height base = base + vs.length := rfl
      by_cases hfull : vs.length % 8 = 7 ∧ room (base + vs.length) = false
      · have hcheck : (if vs.length % 8 = 7 then checkstack room (base + vs.length) else pure ()) rb =
            .error .stackOverflow rb := by
          rw [if_pos hfull.1, checkstack, hfull.2]
          rfl
        have hunsafe : safe room base ⟨vs.length, []⟩ bs = false := by
          rw [safe.eq_def, if_pos ⟨rfl, hfull⟩]
        rw [unpackAll, bind_of_error hcheck]
        exact .fails (fun he => he) (by rintro ⟨⟩) hunsafe
      · have hroom : vs.length % 8 = 7 → room (base + vs.length) = true := fun hseven =>
          Bool.eq_true_of_not_eq_false fun hno => hfull ⟨hseven, hno⟩
        cases bs with
        | nil =>
            rw [unpackAll_nil level rounds hroom hat]
            exact .ok hat (Nat.lt_succ_self _) (safe_nil fun _ => hroom)
        | cons type bs =>
            have hinner : OneFollows room base level (unpackOne room level) :=
              unpackOne_follows level
            obtain ⟨rb₁, hat', hloop⟩ := unpackAll_cons level rounds hroom hat
            have hvalue := pushValue_follows (p := ⟨vs.length, []⟩) hinner (typeOf type)
              (cookieOf type) hat' hlevel
            rw [hloop, safe_cons fun _ => hroom]
            apply hvalue.bind
            intro v rb' rest hat'' hrest
            have hplace : Position.place v ⟨vs.length, []⟩ = some ⟨(vs ++ [v]).length, []⟩ := by
              rw [List.length_append]
              rfl
            have hlen : (type :: bs).length = bs.length + 1 := rfl
            have hloop := ih (vs ++ [v]) hat'' (by omega) (by omega)
            rw [safeAfter, hplace]
            exact hloop.mono (by omega)

/-! ### The buffer -/

/-- A size that is negative as an `int` leaves nothing to read. -/
theorem unpackAll_of_neg (level rounds : ℕ) (buffer : List UInt8) (hneg : len < 0) :
  unpackAll room level base (rounds + 1) [] ⟨buffer, len, 0, []⟩ = .ok [] ⟨buffer, len, 0, []⟩
  := by
  have hend : (ReadBlock.mk buffer len 0 []).len < 1 := Int.lt_trans hneg Int.one_pos
  have hcheck : (if ([] : List Value).length % 8 = 7 then
      checkstack room (base + ([] : List Value).length) else pure ()) ⟨buffer, len, 0, []⟩ =
      .ok () ⟨buffer, len, 0, []⟩ := rfl
  rw [unpackAll, bind_of_ok hcheck, bind_of_ok (rbRead_of_lt hend)]
  rfl

/-- The result of unpacking is values or the error for an invalid stream, and all that was read lies inside
the buffer. -/
def Harmless (buffer : List UInt8) :
    EStateM.Result UnpackError ReadBlock (List Value) → Prop
  | .ok _ rb => ∀ range ∈ rb.reads, InRange buffer.length range
  | .error e rb => e.Invalid ∧ ∀ range ∈ rb.reads, InRange buffer.length range

/-- The outcome of a reader of the whole buffer is harmless where it was safe to start. -/
theorem Follows.harmless_iff {buffer : List UInt8} {b : Bool}
    {x : EStateM.Result UnpackError ReadBlock (List Value)} (hle : len ≤ buffer.length)
    (h : Follows len size b (fun _ _ => true) x) :
  Harmless buffer x ↔ b = true
  := by
  have hmono (range : ℤ × ℤ) (hrange : InRange len range) : InRange buffer.length range :=
    ⟨hrange.1, hrange.2.1, Int.le_trans hrange.2.2 hle⟩
  cases h with
  | ok hat hsize hb => exact iff_of_true (fun range h => hmono range (hat.reads range h)) hb
  | invalid he hreads hb => exact iff_of_true ⟨he, fun range h => hmono range (hreads range h)⟩ hb
  | fails he htime hb =>
      rw [hb]
      exact iff_of_false (fun h => he h.1) Bool.false_ne_true

end

theorem harmless_unread (buffer : List UInt8) (len : ℤ) :
  Harmless buffer (.ok [] ⟨buffer, len, 0, []⟩)
  := fun _ hrange => nomatch hrange

/-- Either nothing is to be read, or unpacking follows. -/
theorem unpack_cases (room : ℕ → Bool) (base : ℕ) (buffer : List UInt8) :
  (buffer.take (toInt buffer.length).toNat = [] ∧
      unpack room base buffer = .ok [] ⟨buffer, toInt buffer.length, 0, []⟩) ∨
    ∃ size, Follows (toInt buffer.length) size
      (safe room base ⟨0, []⟩ (buffer.take (toInt buffer.length).toNat)) (fun _ _ => true)
      (unpack room base buffer)
  := by
  unfold unpack
  rcases Int.lt_trichotomy (toInt buffer.length) 0 with hneg | hzero | hpos
  · left
    rw [if_neg (Int.ne_of_lt hneg), Int.toNat_of_nonpos (Int.le_of_lt hneg)]
    exact ⟨List.take_zero, unpackAll_of_neg _ _ buffer hneg⟩
  · left
    rw [if_pos hzero, hzero]
    exact ⟨List.take_zero, rfl⟩
  · right
    have hat := at_start (Int.le_of_lt hpos) (toInt_le buffer.length)
    have hlen : (buffer.take (toInt buffer.length).toNat).length < (toInt buffer.length).toNat + 1 :=
      Nat.lt_succ_of_le (List.length_take_le _ _)
    rw [if_neg (Int.ne_of_gt hpos)]
    exact ⟨_, unpackAll_follows _ [] hat (Nat.le_of_lt hlen) hlen⟩

/-- Unpacking a buffer returns values or raises the error for an invalid stream, with all reads inside the
buffer, exactly when the bytes of the buffer are safe. -/
theorem unpack_harmless_iff (room : ℕ → Bool) (base : ℕ) (buffer : List UInt8) :
  Harmless buffer (unpack room base buffer) ↔
    safe room base ⟨0, []⟩ (buffer.take (toInt buffer.length).toNat) = true
  := by
  rcases unpack_cases room base buffer with ⟨htake, hempty⟩ | ⟨size, hfollows⟩
  · have hsafe : safe room base ⟨0, []⟩ [] = true := safe_nil nofun
    rw [htake, hempty, hsafe]
    exact iff_of_true (harmless_unread buffer _) rfl
  · exact hfollows.harmless_iff (toInt_le buffer.length)

/-- What unpacking raises. -/
def raised {α : Type} : EStateM.Result UnpackError ReadBlock α → Option UnpackError
  | .ok _ _ => none
  | .error e _ => some e

theorem raised_ok {α : Type} (a : α) (rb : ReadBlock) :
  raised (.ok a rb) = none
  := rfl

theorem Follows.raised_ne {α : Type} {len : ℤ} {size : ℕ} {b : Bool}
    {after : α → List UInt8 → Bool} {x : EStateM.Result UnpackError ReadBlock α}
    (h : Follows len size b after x) :
  raised x ≠ some .timeout
  := by
  cases h with
  | ok hat hsize hb => exact nofun
  | invalid he hreads hb =>
      intro htime
      rw [Option.some.inj htime] at he
      exact he
  | fails he htime hb => exact fun h => htime (Option.some.inj h)

/-- The levels and rounds of the model are enough for every buffer. -/
theorem unpack_terminates (room : ℕ → Bool) (base : ℕ) (buffer : List UInt8) :
  raised (unpack room base buffer) ≠ some .timeout
  := by
  rcases unpack_cases room base buffer with ⟨-, hempty⟩ | ⟨size, hfollows⟩
  · rw [hempty, raised_ok]
    exact nofun
  · exact hfollows.raised_ne

/-- The length of a string that is negative as an `int` passes the check of `rb_read`, and the string is
refused by an error that is not the one for an invalid stream. -/
theorem negative_length_read :
  ¬ Harmless [0x25, 0xFF, 0xFF, 0xFF, 0xFF] (unpack (fun _ => true) 2 [0x25, 0xFF, 0xFF, 0xFF, 0xFF])
  := by
  have hraised : raised (unpack (fun _ => true) 2 [0x25, 0xFF, 0xFF, 0xFF, 0xFF]) = some .tooBig := by
    decide +kernel
  intro h
  cases hresult : unpack (fun _ => true) 2 [0x25, 0xFF, 0xFF, 0xFF, 0xFF] with
  | ok vs rb =>
      rw [hresult] at hraised
      cases hraised
  | error e rb =>
      rw [hresult] at hraised h
      cases hraised
      exact h.1

end Seri
