import FWServer.Msgpack.Cursors
import FWServer.Msgpack.PackedTables

/-!
# The round trip through MessagePack

What `m.pack` makes of an object is read back to a value, `reads_packed`: each packer has its unpacker, and the length
in front says how many of them there are.  The value is the object up to the entries that a confounded table loses,
hence `round_trip_iff`.

`unpacker_stream`: packed objects that follow one another are unpacked one by one, wherever the input was cut.
-/

namespace MessagePack

open Reader (ofList calls)
open Seri (Object Table Heap Value Equals EntryEquals Inside setAll arrayPairs)

/-- Over these bytes, and whatever follows them, the unpacker returns the value. -/
def Unpacks {α : Type} (r : Unpacker α) (bs : List UInt8) (v : α) : Prop :=
  r.Reads "missing bytes" bs v

section Scalars

variable {α γ : Type} {bs bs' : List UInt8} {cursor : Unpacker Value} {v : Value}

theorem Unpacks.bind {r : Unpacker α} {f : α → Unpacker γ} {a : α} {c : γ} (h : Unpacks r bs a)
    (hf : Unpacks (f a) bs' c) :
  Unpacks (r >>= f) (bs ++ bs') c
  := Reader.Reads.bind h hf

theorem Unpacks.return {r : Unpacker α} {a : α} (f : α → γ) (h : Unpacks r bs a) :
  Unpacks (r >>= fun a => return f a) bs (f a)
  := List.append_nil bs ▸ h.bind (Reader.reads_ret (f a))

theorem unpacks_elements {k : ℕ} (h : bs.length = k) :
  Unpacks (Reader.elements k) bs bs
  := h ▸ Reader.reads_elements bs

theorem unpacks_uint {k : ℕ} (h : bs.length = k) :
  Unpacks (unpackUint k) bs (BigEndian.decode bs)
  := (unpacks_elements h).return _

theorem unpacks_int {k : ℕ} (h : bs.length = k) :
  Unpacks (unpackInt k) bs ((BigEndian.decode bs : ℤ).bmod (256 ^ k))
  := (unpacks_elements h).return _

theorem unpacks_str (str : List UInt8) :
  Unpacks (unpackStr str.length) str (.string str)
  := (unpacks_elements rfl).return _

/-- A tag, and what its unpacker reads. -/
theorem unpacks_tag (b : UInt8) (h : Unpacks (unpackers cursor b.toNat) bs v) :
  Unpacks (unpackUint8 >>= unpackers cursor) (b :: bs) v
  := by
  have hb : BigEndian.decode [b] = b.toNat := Nat.zero_add _
  have htag : Unpacks unpackUint8 [b] b.toNat := hb ▸ unpacks_uint rfl
  exact htag.bind h

/-- A tag that has no entry of its own is looked up by its range. -/
theorem unpackers_index {k : ℕ} (h : k < 0xC0 ∨ 0xDF < k) :
  unpackers cursor k = unpackersIndex cursor k
  := by
  have hnone : unpackersTable cursor k = none := by
    unfold unpackersTable
    split <;> first | omega | rfl
  rw [unpackers, hnone]
  rfl

/-! ### Numbers -/

/-- A number that fits its bytes is unpacked from them. -/
theorem unpacks_unsigned {k : ℕ} {n : ℤ} (hn : 0 ≤ n) (hlt : n < 256 ^ k) :
  Unpacks (unpackUint k >>= fun m : ℕ => return integer m) (BigEndian.encodeInt k n) (integer n)
  := by
  have hread := (unpacks_uint (BigEndian.length_encodeInt k n)).return fun m : ℕ => integer m
  rwa [BigEndian.decode_encodeInt, Int.emod_eq_of_lt hn hlt] at hread

theorem unpacks_signed {k : ℕ} {n : ℤ} (hn : n.bmod (256 ^ k) = n) :
  Unpacks (unpackInt k >>= fun m => return integer m) (BigEndian.encodeInt k n) (integer n)
  := by
  have hread := (unpacks_int (BigEndian.length_encodeInt k n)).return integer
  rwa [BigEndian.bmod_decode_encodeInt, hn] at hread

/-- One byte of a number. -/
theorem toNat_ofInt {n : ℤ} (hn : 0 ≤ n) (hlt : n < 256) :
  ((UInt8.ofInt n).toNat : ℤ) = n
  := by
  rw [UInt8.ofInt, UInt8.toNat_ofNat']
  omega

theorem unpacks_packUnsigned {n : ℤ} (hge : -2 ^ 63 ≤ n) (hlt : n < 2 ^ 63) :
  Unpacks (unpackUint8 >>= unpackers cursor) (packUnsigned n) (integer n)
  := by
  have hret (b : UInt8) (h : unpackers cursor b.toNat = return integer n) :
      Unpacks (unpackUint8 >>= unpackers cursor) [b] (integer n) := by
    apply unpacks_tag
    rw [h]
    exact Reader.reads_ret _
  unfold packUnsigned
  split
  · next hpos =>
      split
      · next hle =>
          have hb := toNat_ofInt hpos (by omega)
          apply hret
          rw [unpackers_index (by omega), unpackersIndex, if_pos (by omega), if_pos (by omega), hb]
      split
      · next hle =>
          have hread := unpacks_unsigned (k := 1) hpos (by omega)
          exact unpacks_tag 0xCC hread
      split
      · exact unpacks_tag 0xCD (unpacks_unsigned hpos (by omega))
      split
      · exact unpacks_tag 0xCE (unpacks_unsigned hpos (by omega))
      · exact unpacks_tag 0xCF (unpacks_unsigned hpos (by omega))
  · next hneg =>
      split
      · next hge =>
          have hb := toNat_ofInt (n := 0x100 + n) (by omega) (by omega)
          apply hret
          rw [unpackers_index (by omega), unpackersIndex, if_neg (by omega), if_pos (by omega), hb]
          congr 2
          omega
      split
      · exact unpacks_tag 0xD0 (unpacks_signed (Int.bmod_eq_of_le (by omega) (by omega)))
      split
      · exact unpacks_tag 0xD1 (unpacks_signed (Int.bmod_eq_of_le (by omega) (by omega)))
      split
      · exact unpacks_tag 0xD2 (unpacks_signed (Int.bmod_eq_of_le (by omega) (by omega)))
      · exact unpacks_tag 0xD3 (unpacks_signed (Int.bmod_eq_of_le (by omega) (by omega)))

theorem unpacks_packDouble (bits : UInt64) :
  Unpacks (unpackUint8 >>= unpackers cursor) (packDouble bits) (.number bits)
  := by
  have hread : Unpacks unpackDouble _ _ :=
    (unpacks_elements (BigEndian.length_encode 8 bits.toNat)).return fun bs =>
      Value.number (UInt64.ofNat (BigEndian.decode bs))
  rw [BigEndian.decode_encode bits.toNat_lt, UInt64.ofNat_toNat] at hread
  exact unpacks_tag 0xCB hread

/-! ### Lengths -/

/-- The length that a packer puts in front is what the unpacker is given. -/
theorem unpacks_length {packer : String} {fix limit n : ℕ} {tag16 tag32 : UInt8} {tag : List UInt8}
    {f : ℕ → Unpacker Value} (h : packLength packer fix limit tag16 tag32 n = .ok tag)
    (hfix : ∀ m ≤ limit, fix + m < 256 ∧ unpackers cursor (fix + m) = f m)
    (h16 : unpackers cursor tag16.toNat = unpackUint16 >>= f) (h32 : unpackers cursor tag32.toNat = unpackUint32 >>= f)
    (hread : Unpacks (f n) bs v) :
  Unpacks (unpackUint8 >>= unpackers cursor) (tag ++ bs) v
  := by
  have hnumber {k : ℕ} (hn : n < 256 ^ k) : Unpacks (unpackUint k >>= f) (BigEndian.encode k n ++ bs) v := by
    have hlength := unpacks_uint (BigEndian.length_encode k n)
    rw [BigEndian.decode_encode hn] at hlength
    exact hlength.bind hread
  unfold packLength at h
  split at h
  · next hle =>
      obtain rfl := Except.ok.inj h
      obtain ⟨hlt, hf⟩ := hfix n hle
      apply unpacks_tag
      rw [UInt8.toNat_ofNat', Nat.mod_eq_of_lt hlt, hf]
      exact hread
  split at h
  · obtain rfl := Except.ok.inj h
    apply unpacks_tag
    rw [h16]
    exact hnumber (by omega)
  split at h
  · obtain rfl := Except.ok.inj h
    apply unpacks_tag
    rw [h32]
    exact hnumber (by omega)
  · cases h

theorem le_of_packLength {packer : String} {fix limit n : ℕ} {tag16 tag32 : UInt8} {tag : List UInt8}
    (h : packLength packer fix limit tag16 tag32 n = .ok tag) (hlimit : limit ≤ 0xFFFFFFFF) :
  n ≤ 0xFFFFFFFF
  := by
  unfold packLength at h
  split at h
  · omega
  split at h
  · omega
  split at h
  · assumption
  · cases h

end Scalars

/-! ### Tables -/

section Tables

variable {heap : Heap} {levels : ℕ} {o : Object} {bs : List UInt8}

/-- The bytes are unpacked to a value that equals what is left of the object. -/
def ReadBack (heap : Heap) (levels : ℕ) (o : Object) (bs : List UInt8) (v : Value) : Prop :=
  Equals (trim ∘ heap) o v ∧ ∀ levels', levels ≤ levels' → Unpacks (unpackCursor levels') bs v

/-- A packer that calls another returns only if that returns. -/
theorem bind_eq_ok {x : Except String (List UInt8)} {f : List UInt8 → Except String (List UInt8)} :
  x >>= f = .ok bs ↔ ∃ b, x = .ok b ∧ f b = .ok bs
  := by
  constructor
  · intro h
    cases x with
    | error e => cases h
    | ok b => exact ⟨b, rfl, h⟩
  · rintro ⟨b, rfl, h⟩
    exact h

theorem packEach_cons {pack : Object → Except String (List UInt8)} {os : List Object}
    (h : packEach pack (o :: os) = .ok bs) :
  ∃ b more, pack o = .ok b ∧ packEach pack os = .ok more ∧ bs = b ++ more
  := by
  rw [packEach] at h
  obtain ⟨b, ho, h⟩ := bind_eq_ok.mp h
  obtain ⟨more, hos, h⟩ := bind_eq_ok.mp h
  exact ⟨b, more, ho, hos, (Except.ok.inj h).symm⟩

/-- The elements of an array are unpacked one after another. -/
theorem unpacks_elements_packed {os : List Object}
    (ih : ∀ {o bs}, packers heap levels o = .ok bs → ∃ v, ReadBack heap levels o bs v)
    (h : packEach (packers heap levels) os = .ok bs) :
  ∃ vs, List.Forall₂ (Equals (trim ∘ heap)) os vs ∧ ∀ levels', levels ≤ levels' → ∀ i t,
    Unpacks (unpackElements (unpackCursor levels') os.length i t) bs (setAll t (arrayPairs i vs))
  := by
  induction os generalizing bs with
  | nil =>
      obtain rfl := Except.ok.inj h
      exact ⟨[], .nil, fun _ _ _ _ => Reader.reads_ret _⟩
  | cons o os ih' =>
      obtain ⟨b, more, ho, hos, rfl⟩ := packEach_cons h
      obtain ⟨v, hv, hread⟩ := ih ho
      obtain ⟨vs, hvs, hreads⟩ := ih' hos
      use v :: vs, .cons hv hvs
      intro levels' hle i t
      exact (hread levels' hle).bind (hreads levels' hle (i + 1) _)

/-- The entries of a map are unpacked one after another. -/
theorem unpacks_entries_packed {es : List (Object × Object)}
    (ih : ∀ {o bs}, packers heap levels o = .ok bs → ∃ v, ReadBack heap levels o bs v) (hkeys : ∀ e ∈ es, e.1.IsKey)
    (h : packEach (packers heap levels) (es.flatMap fun e => [e.1, e.2]) = .ok bs) :
  ∃ ws, List.Forall₂ (EntryEquals (trim ∘ heap)) es ws ∧ ∀ levels', levels ≤ levels' → ∀ t,
    Unpacks (unpackEntries (unpackCursor levels') es.length t) bs (setAll t ws)
  := by
  induction es generalizing bs with
  | nil =>
      obtain rfl := Except.ok.inj h
      exact ⟨[], .nil, fun _ _ _ => Reader.reads_ret _⟩
  | cons e es ih' =>
      rw [List.flatMap_cons] at h
      obtain ⟨b, _, hk, hrest, rfl⟩ := packEach_cons h
      obtain ⟨b', more, hval, hes, rfl⟩ := packEach_cons hrest
      obtain ⟨k, hequal, hread⟩ := ih hk
      obtain ⟨v, hequal', hread'⟩ := ih hval
      obtain ⟨ws, hws, hreads⟩ := ih' (fun e he => hkeys e (List.mem_cons_of_mem _ he)) hes
      have hkey := hkeys e List.mem_cons_self
      use (k, v) :: ws, .cons ⟨hequal, hequal'⟩ hws
      intro levels' hle t
      refine (hread levels' hle).bind ((hread' levels' hle).bind ?_)
      rw [hequal.isNil_of_isKey hkey, hequal.isNaN_of_isKey hkey]
      exact hreads levels' hle _

/-- A table that is packed as a map is unpacked entry by entry. -/
theorem readBack_packMap {ref : ℕ} (ih : ∀ {o bs}, packers heap levels o = .ok bs → ∃ v, ReadBack heap levels o bs v)
    (hmap : isMap (heap ref) = true) (h : packMap (packers heap levels) (heap ref) (scan (heap ref)).n = .ok bs) :
  ∃ v, ReadBack heap (levels + 1) (.table ref) bs v
  := by
  unfold packMap at h
  obtain ⟨tag, htag, h⟩ := bind_eq_ok.mp h
  obtain ⟨entries, hentries, h⟩ := bind_eq_ok.mp h
  obtain rfl := Except.ok.inj h
  rw [← trim_of_isMap hmap] at hentries
  have hkeys := (trim (heap ref)).isKey
  obtain ⟨ws, hws, hreads⟩ := unpacks_entries_packed ih hkeys hentries
  have hset := Seri.setAll_equals hws hkeys (trim (heap ref)).keys_nodup .nil fun e he => absurd he List.not_mem_nil
  have hvalue : (trim (heap ref)).entries.filter (fun e => e.2 ≠ .nil) = (trim (heap ref)).entries :=
    List.filter_eq_self.mpr fun e he => decide_eq_true ((trim (heap ref)).value_ne_nil e he)
  rw [List.nil_append, hvalue] at hset
  use .table (setAll [] ws), .table (.refl _) hset
  intro levels' hle
  cases levels' with
  | zero => cases hle
  | succ levels' =>
      refine unpacks_length htag (f := unpackMap (unpackCursor levels')) (fun m hm => ?_) rfl rfl ?_
      · refine ⟨by omega, ?_⟩
        rw [unpackers_index (by omega), unpackersIndex, if_pos (by omega), if_neg (by omega), if_pos (by omega)]
        congr 1
        omega
      · have hlength : (scan (heap ref)).n = (trim (heap ref)).entries.length := by
          rw [scan_n, trim_of_isMap hmap]
        rw [hlength]
        exact (hreads levels' (Nat.le_of_succ_le_succ hle) []).return _

/-- A table that is packed as an array is unpacked element by element. -/
theorem readBack_packArray {ref : ℕ} (ih : ∀ {o bs}, packers heap levels o = .ok bs → ∃ v, ReadBack heap levels o bs v)
    (hmap : isMap (heap ref) = false) (h : packArray (packers heap levels) (heap ref) (scan (heap ref)).n = .ok bs) :
  ∃ v, ReadBack heap (levels + 1) (.table ref) bs v
  := by
  unfold packArray at h
  obtain ⟨tag, htag, h⟩ := bind_eq_ok.mp h
  obtain ⟨elements, helements, h⟩ := bind_eq_ok.mp h
  obtain rfl := Except.ok.inj h
  have hle := le_of_packLength htag (by decide)
  obtain ⟨vs, hvs, hreads⟩ := unpacks_elements_packed ih helements
  rw [List.forall₂_map_left_iff] at hvs
  have hpairs := Seri.arrayPairs_equals (trim (heap ref)) (hvs.imp fun i v hv => (trim_rawgeti (heap ref) i).symm ▸ hv)
  have hset := Seri.setAll_equals hpairs (fun e he => ?_) (arrayObjects_nodup _ hle) .nil
    fun e he => absurd he List.not_mem_nil
  · rw [List.nil_append] at hset
    use .table (setAll [] (arrayPairs 1 vs)), .table (entries_perm hmap hle) hset
    intro levels' hle
    cases levels' with
    | zero => cases hle
    | succ levels' =>
        refine unpacks_length htag (f := unpackArray (unpackCursor levels')) (fun m hm => ?_) rfl rfl ?_
        · refine ⟨by omega, ?_⟩
          rw [unpackers_index (by omega), unpackersIndex, if_pos (by omega), if_neg (by omega), if_neg (by omega),
            if_pos (by omega)]
          congr 1
          omega
        · have hread := (hreads levels' (Nat.le_of_succ_le_succ hle) 1 []).return Value.table
          rwa [List.length_map, List.length_range'] at hread
  · obtain ⟨j, -, rfl⟩ := List.mem_map.mp he
    trivial

/-- What is packed is read back. -/
theorem readBack_packers (h : packers heap levels o = .ok bs) :
  ∃ v, ReadBack heap levels o bs v
  := by
  induction levels generalizing o bs with
  | zero => cases h
  | succ levels ih =>
      have hscalar {v : Value} (hequal : Equals (trim ∘ heap) o v)
          (hread : ∀ levels, Unpacks (unpackUint8 >>= unpackers (unpackCursor levels)) bs v) :
          ∃ v, ReadBack heap (levels + 1) o bs v := by
        use v, hequal
        intro levels' hle
        cases levels' with
        | zero => cases hle
        | succ levels' => exact hread levels'
      cases o with
      | nil =>
          obtain rfl := Except.ok.inj h
          exact hscalar .nil fun _ => unpacks_tag 0xC0 (Reader.reads_ret _)
      | boolean b =>
          obtain rfl := Except.ok.inj h
          cases b with
          | false => exact hscalar (.boolean false) fun _ => unpacks_tag 0xC2 (Reader.reads_ret _)
          | true => exact hscalar (.boolean true) fun _ => unpacks_tag 0xC3 (Reader.reads_ret _)
      | integer n =>
          obtain rfl := Except.ok.inj h
          apply hscalar (.integer n)
          intro levels
          have hread : Unpacks (unpackUint8 >>= unpackers (unpackCursor levels)) _ _ :=
            unpacks_packUnsigned n.le_toInt n.toInt_lt
          rwa [integer, Int64.ofInt_toInt] at hread
      | number bits =>
          obtain rfl := Except.ok.inj h
          exact hscalar (.number bits) fun _ => unpacks_packDouble bits
      | lightuserdata p => cases h
      | other typename => cases h
      | string str =>
          apply hscalar (.string str)
          intro levels
          change packStringCompat str = .ok bs at h
          obtain ⟨tag, htag, h⟩ := bind_eq_ok.mp h
          obtain rfl := Except.ok.inj h
          refine unpacks_length htag (f := unpackStr) (fun m hm => ⟨by omega, ?_⟩) rfl rfl (unpacks_str str)
          rw [unpackers_index (by omega), unpackersIndex, if_pos (by omega), if_neg (by omega), if_neg (by omega),
            if_neg (by omega)]
          congr 1
          omega
      | table ref =>
          change packTable (packers heap levels) (heap ref) = .ok bs at h
          unfold packTable at h
          split at h
          · next hmap => exact readBack_packMap ih hmap h
          · next hmap => exact readBack_packArray ih (Bool.eq_false_iff.mpr hmap) h

end Tables

/-! ### Round trips -/

section RoundTrips

variable {heap : Heap} {levels levels' : ℕ}

theorem unpack_packed {o : Object} {bs : List UInt8} (h : pack levels heap o = .ok bs) (hle : levels ≤ levels') :
  ∃ v, unpack levels' bs = .ok v ∧ Equals (trim ∘ heap) o v
  := by
  obtain ⟨v, hequal, hread⟩ := readBack_packers h
  have hrun := hread levels' hle []
  rw [List.append_nil] at hrun
  refine ⟨v, ?_, hequal⟩
  rw [unpack_eq, hrun]
  rfl

/-- What `m.pack` makes of an object is unpacked to what is left of it, which is all of it if and only if no table
inside is confounded. -/
theorem round_trip_iff {o : Object} {bs : List UInt8} (h : pack levels heap o = .ok bs) (hle : levels ≤ levels') :
  ∃ v, unpack levels' bs = .ok v ∧ Equals (trim ∘ heap) o v ∧
    (Equals heap o v ↔ ∀ k ref, Inside heap k o (.table ref) → ¬ Confounded (heap ref))
  := by
  obtain ⟨v, hunpack, hequal⟩ := unpack_packed h hle
  exact ⟨v, hunpack, hequal, equals_iff hequal⟩

theorem half_rawlen_lt :
  2 < 2 ^ 31
  := by decide

theorem isKey_half :
  (Object.number 0x3FF8000000000000).IsKey
  := ⟨by decide +kernel, by decide +kernel⟩

/-- The table `{[2] = true, [1.5] = "A"}`. -/
def half : Table where
  entries := [(.integer 2, .boolean true), (.number 0x3FF8000000000000, .string [65])]
  rawlen := 2
  keys_nodup := by simp
  isKey := List.forall_mem_cons.mpr ⟨trivial, List.forall_mem_singleton.mpr isKey_half⟩
  value_ne_nil := by simp
  rawlen_lt := half_rawlen_lt
  border := .inr (by simp [Seri.lookup])
  border_succ := by simp [Seri.lookup]

/-- What is under `1.5` is lost. -/
theorem round_trip_iff_half :
  pack 2 (fun _ => half) (.table 0) = .ok [0x92, 0xC0, 0xC3] ∧
    ∃ v, unpack 2 [0x92, 0xC0, 0xC3] = .ok v ∧ ¬ Equals (fun _ => half) (.table 0) v
  := by
  have hpack : pack 2 (fun _ => half) (.table 0) = .ok [0x92, 0xC0, 0xC3] := by decide +kernel
  obtain ⟨v, hunpack, -, hiff⟩ := round_trip_iff hpack (Nat.le_refl 2)
  have hconfounded : Confounded half :=
    ⟨by decide +kernel, (.number 0x3FF8000000000000, .string [65]), List.mem_cons_of_mem _ List.mem_cons_self, rfl⟩
  exact ⟨hpack, v, hunpack, fun hequal => hiff.mp hequal 0 0 (.here _) hconfounded⟩

/-- No unpacker reads nothing. -/
theorem Unpacks.ne_nil {bs : List UInt8} {v : Value} (h : Unpacks (unpackCursor levels) bs v) :
  bs ≠ []
  := by
  rintro rfl
  have hrun := h []
  cases levels with
  | zero => cases hrun
  | succ levels => cases hrun

/-- Objects that were packed one after another are unpacked one after another, wherever the input was cut into chunks,
and then the input is at its end. -/
theorem unpacker_stream {os : List Object} {pieces ld : List (List UInt8)}
    (h : List.Forall₂ (fun o bs => pack levels heap o = .ok bs) os pieces) (hle : levels ≤ levels')
    (hld : ld.flatten = pieces.flatten) :
  ∃ vs, List.Forall₂ (Equals (trim ∘ heap)) os vs ∧
    calls (unpackerLoader levels') (os.length + 1) (cursorLoader ld) = vs.map (fun v => some (.ok v)) ++ [none]
  := by
  rw [calls_loader, hld]
  clear hld
  induction h with
  | nil => exact ⟨[], .nil, rfl⟩
  | @cons o bs os pieces hpack _ ih =>
      obtain ⟨v, hequal, hread⟩ := readBack_packers hpack
      obtain ⟨vs, hvs, hcalls⟩ := ih
      use v :: vs, .cons hequal hvs
      have hunpacks := hread levels' hle
      have hne : bs ++ pieces.flatten ≠ [] := fun heq => hunpacks.ne_nil (List.append_eq_nil_iff.mp heq).1
      have hnext : unpackNext levels' (bs ++ pieces.flatten) = some (.ok (v, pieces.flatten)) := by
        rw [unpackNext, if_neg hne]
        exact congrArg some (hunpacks pieces.flatten)
      rw [List.flatten_cons, List.length_cons, calls, hnext]
      dsimp only
      rw [hcalls]
      rfl

theorem unpacker_stream_two :
  ∃ vs, List.Forall₂ (Equals (trim ∘ fun _ => half)) [.table 0, .string [65]] vs ∧
    calls (unpackerLoader 2) 3 (cursorLoader [[0x92, 0xC0], [], [0xC3, 0xA1], [65]]) =
      vs.map (fun v => some (.ok v)) ++ [none]
  := by
  have htable : pack 2 (fun _ => half) (.table 0) = .ok [0x92, 0xC0, 0xC3] := by decide +kernel
  have hstring : pack 2 (fun _ => half) (.string [65]) = .ok [0xA1, 65] := by decide +kernel
  exact unpacker_stream (.cons htable (.cons hstring .nil)) (Nat.le_refl 2) rfl

end RoundTrips

end MessagePack
