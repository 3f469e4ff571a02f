import FWServer.Seri.Entries
import FWServer.Seri.Leaves

/-!
# Packing and unpacking

Unpacking a buffer that packing has made gives values equal to the objects packed.

`Decodes` says of bytes that they are read as a value wherever they stand in a buffer.  What packing an
object appends decodes to an equal value, by induction on the levels of tables left: the array part and the
other entries of a table are two lists of pieces, each of which decodes, and setting their keys one after
another gives back the entries, because no key is written twice.  That packing succeeds up to `MAX_DEPTH`
tables, and fails below, is by the same recursion.
-/

namespace Seri

open LittleEndian (toInt toInt_of_lt)

variable {room : ℕ → Bool} {heap : Heap}

/-! ### Bytes that decode -/

/-- There is room on the stack, from the height `top` on, for so many levels of tables. -/
def Roomy (room : ℕ → Bool) (levels top : ℕ) : Prop :=
  ∀ height ≤ top + 2 * levels, room height = true

theorem Roomy.inner {levels top k : ℕ} (h : Roomy room (levels + 1) top) (hk : k ≤ 2) :
  Roomy room levels (top + k)
  := by
  intro height hheight
  apply h
  omega

/-- The bytes are read as the value, wherever they stand, with a level for each of them. -/
def Decodes (room : ℕ → Bool) (levels : ℕ) (bs : List UInt8) (v : Value) : Prop :=
  ∃ type tail, bs = type :: tail ∧
    ∀ ⦃level top : ℕ⦄ ⦃len : ℤ⦄ ⦃rb : ReadBlock⦄ ⦃rest : List UInt8⦄, tail.length ≤ level →
      Roomy room levels top → At len rb (tail ++ rest) →
      ∃ rb', pushValue room (unpackOne room level) top (typeOf type) (cookieOf type) rb = .ok v rb' ∧
        At len rb' rest

section

variable {levels level top : ℕ} {len : ℤ} {rb : ReadBlock} {bs rest : List UInt8} {v : Value}

theorem Decodes.length_pos (h : Decodes room levels bs v) :
  0 < bs.length
  := by
  obtain ⟨type, tail, rfl, -⟩ := h
  exact Nat.succ_pos _

theorem Decodes.unpackOne (h : Decodes room levels bs v) (hlevel : bs.length ≤ level)
    (hroom : Roomy room levels top) (hat : At len rb (bs ++ rest)) :
  ∃ rb', unpackOne room level top rb = .ok v rb' ∧ At len rb' rest
  := by
  obtain ⟨type, tail, rfl, hread⟩ := h
  cases level with
  | zero => exact absurd hlevel (Nat.not_succ_le_zero _)
  | succ level =>
      have hbyte := readByte_agrees 528 hat
      obtain ⟨rb', hr, hat'⟩ := hbyte.exists_ok
      rw [Seri.unpackOne, bind_of_ok hr]
      exact hread (Nat.le_of_succ_le_succ hlevel) hroom hat'

/-- A token that is a value. -/
theorem Spells.decodes (h : Spells bs (.plain v)) :
  Decodes room levels bs v
  := by
  obtain ⟨t, k, tail, ht, hk, rfl, htake⟩ := h
  obtain ⟨htype, hcookie⟩ := combineType_spec ht hk
  have htable : t ≠ TYPE_TABLE := by
    rintro rfl
    obtain ⟨x, -, hx⟩ := Option.map_eq_some_iff.mp (htake [])
    cases hx
  use combineType t k, tail, rfl
  intro level top len rb rest hlevel hroom hat
  have htakes := pushValue_takes room (Seri.unpackOne room level) top htable k hat
  rw [htake] at htakes
  rw [htype, hcookie]
  exact htakes.exists_ok

/-! ### Reading the parts of a table -/

/-- A piece of the bytes and the value it decodes to. -/
abbrev Piece : Type :=
  List UInt8 × Value

theorem unpackArray_decodes (pieces : List Piece) (i : ℕ) (entries : List (Value × Value))
    (hpieces : ∀ x ∈ pieces, Decodes room levels x.1 x.2)
    (hlevel : (pieces.flatMap Prod.fst).length ≤ level) (hroom : Roomy room levels top)
    (hat : At len rb (pieces.flatMap Prod.fst ++ rest)) :
  ∃ rb', unpackArray (Seri.unpackOne room level top) pieces.length i entries rb =
      .ok (setAll entries (arrayPairs i (pieces.map Prod.snd))) rb' ∧ At len rb' rest
  := by
  induction pieces generalizing i entries rb with
  | nil => exact ⟨rb, rfl, hat⟩
  | cons x pieces ih =>
      rw [List.flatMap_cons, List.append_assoc] at hat
      rw [List.flatMap_cons, List.length_append] at hlevel
      have hx := hpieces x List.mem_cons_self
      have hxlevel : x.1.length ≤ level := by omega
      obtain ⟨rb₁, hr, hat₁⟩ := hx.unpackOne hxlevel hroom hat
      rw [List.length_cons, unpackArray, bind_of_ok hr]
      exact ih (i + 1) _ (fun y hy => hpieces y (List.mem_cons_of_mem x hy)) (by omega) hat₁

/-- The bytes of a key and of its value. -/
def Piece.pairBytes (x : Piece × Piece) : List UInt8 :=
  x.1.1 ++ x.2.1

theorem unpackHash_decodes (pieces : List (Piece × Piece)) (entries : List (Value × Value))
    {bs : List UInt8} (hend : Decodes room levels bs .nil)
    (hpieces : ∀ x ∈ pieces, Decodes room levels x.1.1 x.1.2 ∧ Decodes room levels x.2.1 x.2.2 ∧
      x.1.2.isNil = false ∧ x.1.2.isNaN = false)
    (hlevel : (pieces.flatMap Piece.pairBytes ++ bs).length ≤ level) {top' : ℕ}
    (hroom : Roomy room levels top) (hroom' : Roomy room levels top')
    (hat : At len rb (pieces.flatMap Piece.pairBytes ++ bs ++ rest)) {rounds : ℕ}
    (hrounds : (pieces.flatMap Piece.pairBytes ++ bs).length ≤ rounds) :
  ∃ rb', unpackHash (Seri.unpackOne room level top) (Seri.unpackOne room level top') rounds entries rb =
      .ok (setAll entries (pieces.map fun x => (x.1.2, x.2.2))) rb' ∧ At len rb' rest
  := by
  induction pieces generalizing entries rb rounds with
  | nil =>
      have hpos := hend.length_pos
      obtain ⟨rb₁, hr, hat₁⟩ := hend.unpackOne hlevel hroom hat
      cases rounds with
      | zero => exact absurd (Nat.lt_of_lt_of_le hpos hrounds) (Nat.lt_irrefl 0)
      | succ rounds =>
          rw [unpackHash, bind_of_ok hr]
          exact ⟨rb₁, rfl, hat₁⟩
  | cons x pieces ih =>
      obtain ⟨hkey, hvalue, hnil, hnan⟩ := hpieces x List.mem_cons_self
      have hpos := hkey.length_pos
      have hcons : (x :: pieces).flatMap Piece.pairBytes ++ bs =
          x.1.1 ++ (x.2.1 ++ (pieces.flatMap Piece.pairBytes ++ bs)) := by
        rw [List.flatMap_cons, Piece.pairBytes, List.append_assoc, List.append_assoc]
      rw [hcons, List.append_assoc, List.append_assoc] at hat
      rw [hcons, List.length_append, List.length_append] at hlevel hrounds
      cases rounds with
      | zero => omega
      | succ rounds =>
          have hkeylevel : x.1.1.length ≤ level := by omega
          have hvaluelevel : x.2.1.length ≤ level := by omega
          obtain ⟨rb₁, hr₁, hat₁⟩ := hkey.unpackOne hkeylevel hroom hat
          obtain ⟨rb₂, hr₂, hat₂⟩ := hvalue.unpackOne hvaluelevel hroom' hat₁
          have hset : rawset entries x.1.2 x.2.2 rb₂ = .ok (Value.set entries x.1.2 x.2.2) rb₂ := by
            rw [rawset, hnan]
            rfl
          rw [unpackHash, bind_of_ok hr₁, hnil, if_neg Bool.false_ne_true, bind_of_ok hr₂,
            bind_of_ok hset]
          exact ih _ (fun y hy => hpieces y (List.mem_cons_of_mem x hy)) (by omega) hat₂ (by omega)

/-- The head of a table. -/
def SpellsTable (bs : List UInt8) (array_size : ℕ) : Prop :=
  ∃ k : ℕ, ∃ tail, k < 32 ∧ bs = combineType TYPE_TABLE k :: tail ∧
    ∀ rest, takeArraySize k (tail ++ rest) = some ((array_size : ℤ), rest)

/-- A table: its head, the pieces of its array part, those of its other entries, and the end. -/
theorem table_decodes {head : List UInt8} {array : List Piece} {hash : List (Piece × Piece)}
    {bs : List UInt8} (hhead : SpellsTable head array.length)
    (harray : ∀ x ∈ array, Decodes room levels x.1 x.2)
    (hhash : ∀ x ∈ hash, Decodes room levels x.1.1 x.1.2 ∧ Decodes room levels x.2.1 x.2.2 ∧
      x.1.2.isNil = false ∧ x.1.2.isNaN = false)
    (hend : Decodes room levels bs .nil) :
  Decodes room (levels + 1)
    (head ++ array.flatMap Prod.fst ++ hash.flatMap Piece.pairBytes ++ bs)
    (.table (setAll (setAll [] (arrayPairs 1 (array.map Prod.snd)))
      (hash.map fun x => (x.1.2, x.2.2))))
  := by
  obtain ⟨k, tail, hk, rfl, htake⟩ := hhead
  obtain ⟨htype, hcookie⟩ := combineType_spec (t := TYPE_TABLE) (by decide) hk
  use combineType TYPE_TABLE k,
    tail ++ (array.flatMap Prod.fst ++ (hash.flatMap Piece.pairBytes ++ bs))
  constructor
  · simp only [List.cons_append, List.append_assoc]
  · intro level top len rb rest hlevel hroom hat
    rw [List.append_assoc, List.append_assoc] at hat
    rw [List.length_append, List.length_append] at hlevel
    have hsize := arraySize_agrees k hat
    rw [htake] at hsize
    obtain ⟨rb₁, hr₁, hat₁⟩ := hsize.exists_ok
    have hcheck : checkstack room top rb₁ = .ok () rb₁ := by
      rw [checkstack, hroom top (Nat.le_add_right _ _)]
      rfl
    have harraylevel : (array.flatMap Prod.fst).length ≤ level := by omega
    obtain ⟨rb₂, hr₂, hat₂⟩ := unpackArray_decodes array 1 [] harray harraylevel
      (hroom.inner (k := 1) (by decide)) hat₁
    have hget : (get : Reader ReadBlock) rb₂ = .ok rb₂ rb₂ := rfl
    have hrounds : (hash.flatMap Piece.pairBytes ++ bs).length ≤ rb₂.len.toNat + 1 := by
      have happend : (hash.flatMap Piece.pairBytes ++ bs ++ rest).length =
          (hash.flatMap Piece.pairBytes ++ bs).length + rest.length := List.length_append
      rw [hat₂.len_eq, Int.toNat_natCast, happend]
      omega
    have hhashlevel : (hash.flatMap Piece.pairBytes ++ bs).length ≤ level := by omega
    obtain ⟨rb₃, hr₃, hat₃⟩ := unpackHash_decodes hash
      (setAll [] (arrayPairs 1 (array.map Prod.snd))) hend hhash hhashlevel
      (hroom.inner (k := 1) (by decide)) (hroom.inner (k := 2) (by decide)) hat₂ hrounds
    use rb₃
    rw [htype, hcookie]
    change unpackTable room (Seri.unpackOne room level) top k rb = _ ∧ _
    rw [unpackTable, bind_of_ok hr₁, bind_of_ok hcheck, Int.toNat_natCast, bind_of_ok hr₂,
      bind_of_ok hget, bind_of_ok hr₃]
    exact ⟨rfl, hat₃⟩

end

/-! ### What packing appends -/

/-- Packing the object appends bytes that decode to an equal value. -/
def Packs (room : ℕ → Bool) (heap : Heap) (levels : ℕ) (o : Object)
    (pack : WriteBlock → Except PackError WriteBlock) : Prop :=
  ∀ wb wb', pack wb = .ok wb' →
    ∃ bs v, wb'.contents = wb.contents ++ bs ∧ Decodes room levels bs v ∧ Equals heap o v

theorem Writes.packs {levels : ℕ} {wb wb' : WriteBlock} {o : Object} {v : Value}
    (h : Writes wb wb' (.plain v)) (heq : Equals heap o v) :
  ∃ bs v, wb'.contents = wb.contents ++ bs ∧ Decodes room levels bs v ∧ Equals heap o v
  := by
  obtain ⟨bs, hcontents, hspells⟩ := h
  exact ⟨bs, v, hcontents, hspells.decodes, heq⟩

theorem bind_eq_ok {α β : Type} {x : Except PackError α} {f : α → Except PackError β} {b : β} :
  x >>= f = .ok b ↔ ∃ a, x = .ok a ∧ f a = .ok b
  := by
  cases x with
  | error e => exact ⟨nofun, fun ⟨_, h, _⟩ => nomatch h⟩
  | ok a => exact ⟨fun h => ⟨a, rfl, h⟩, fun ⟨_, h, hf⟩ => Except.ok.inj h ▸ hf⟩

/-- A loop that appends one piece for each element. -/
theorem foldlM_appends {γ δ : Type} {f : WriteBlock → γ → Except PackError WriteBlock}
    (bytes : δ → List UInt8) (R : γ → δ → Prop) (l : List γ)
    (hf : ∀ a ∈ l, ∀ wb wb', f wb a = .ok wb' → ∃ x, wb'.contents = wb.contents ++ bytes x ∧ R a x)
    {wb wb' : WriteBlock} (h : l.foldlM f wb = .ok wb') :
  ∃ xs, wb'.contents = wb.contents ++ xs.flatMap bytes ∧ List.Forall₂ R l xs
  := by
  induction l generalizing wb with
  | nil =>
      cases h
      exact ⟨[], (List.append_nil _).symm, .nil⟩
  | cons a l ih =>
      rw [List.foldlM_cons] at h
      obtain ⟨wb₁, ha, hl⟩ := bind_eq_ok.mp h
      obtain ⟨x, hx, hR⟩ := hf a List.mem_cons_self wb wb₁ ha
      obtain ⟨xs, hxs, hRs⟩ := ih (fun b hb => hf b (List.mem_cons_of_mem a hb)) hl
      use x :: xs
      rw [hxs, hx, List.flatMap_cons, List.append_assoc]
      exact ⟨rfl, .cons hR hRs⟩

theorem forall_of_forall₂ {γ δ : Type} {R : γ → δ → Prop} {P : δ → Prop} {l : List γ} {xs : List δ}
    (h : List.Forall₂ R l xs) (hP : ∀ a x, R a x → P x) :
  ∀ x ∈ xs, P x
  := by
  induction h with
  | nil => exact fun _ hx => nomatch hx
  | cons hax _ ih =>
      intro y hy
      rcases List.mem_cons.mp hy with rfl | hy
      · exact hP _ _ hax
      · exact ih y hy

/-- Elements that a loop skips. -/
theorem foldlM_skip {γ : Type} (p : γ → Bool) (f : WriteBlock → γ → Except PackError WriteBlock)
    (l : List γ) (wb : WriteBlock) :
  l.foldlM (fun wb a => if p a then pure wb else f wb a) wb =
    (l.filter fun a => !p a).foldlM f wb
  := by
  induction l generalizing wb with
  | nil => rfl
  | cons a l ih =>
      rw [List.foldlM_cons]
      cases ha : p a with
      | true =>
          rw [if_pos rfl, List.filter_cons_of_neg (by rw [ha]; decide)]
          exact ih wb
      | false =>
          rw [if_neg Bool.false_ne_true, List.filter_cons_of_pos (by rw [ha]; rfl), List.foldlM_cons]
          exact congrArg (f wb a >>= ·) (funext ih)

/-- All that lies inside the object can be packed. -/
def AllSerialisable (heap : Heap) (o : Object) : Prop :=
  ∀ k w, Inside heap k o w → w.Serialisable

theorem AllSerialisable.nil :
  AllSerialisable heap .nil
  := by
  intro k w h
  cases h
  trivial

theorem AllSerialisable.of_mem {ref : ℕ} (h : AllSerialisable heap (.table ref))
    {e : Object × Object} (he : e ∈ (heap ref).entries) :
  AllSerialisable heap e.1 ∧ AllSerialisable heap e.2
  := ⟨fun k w hk => h (k + 1) w (.key he hk), fun k w hk => h (k + 1) w (.value he hk)⟩

theorem AllSerialisable.rawgeti {ref : ℕ} (h : AllSerialisable heap (.table ref)) (j : ℕ) :
  AllSerialisable heap ((heap ref).rawgeti j)
  := by
  by_cases hnil : (heap ref).rawgeti j = .nil
  · rw [hnil]
    exact .nil
  · exact (h.of_mem (mem_of_lookup hnil)).2

theorem wbTableHead_writes (wb : WriteBlock) {n : ℕ} (hn : n < 2 ^ 31) :
  ∃ bs, (wbTableHead wb n).contents = wb.contents ++ bs ∧ SpellsTable bs n
  := by
  unfold wbTableHead
  split_ifs with hlarge
  · obtain ⟨bs, hbs, v, tail, hv, hreal, rfl, htake⟩ :=
      wbInteger_writes (wb.push [combineType TYPE_TABLE (MAX_COOKIE - 1)]) (n := n) (by omega) (by omega)
    obtain ⟨htype, hcookie⟩ := combineType_spec (t := TYPE_NUMBER) (by decide) hv
    use combineType TYPE_TABLE (MAX_COOKIE - 1) :: combineType TYPE_NUMBER v :: tail
    constructor
    · rw [hbs, WriteBlock.contents_push, List.append_assoc, List.singleton_append]
    · use MAX_COOKIE - 1, combineType TYPE_NUMBER v :: tail, by decide, rfl
      intro rest
      rw [takeArraySize.eq_def, if_pos rfl, List.cons_append]
      simp only [htype, hcookie, ne_eq, not_true_eq_false, false_or, if_neg hreal, htake rest,
        Option.map_some, toInt_of_lt hn]
  · have hsmall : n < 31 := Nat.lt_of_not_le hlarge
    use [combineType TYPE_TABLE n], WriteBlock.contents_push wb _
    use n, [], Nat.lt_succ_of_lt hsmall, rfl
    intro rest
    have hne : ¬ n = MAX_COOKIE - 1 := Nat.ne_of_lt hsmall
    rw [takeArraySize.eq_def, if_neg hne]
    rfl

/-- A table is packed as its head, its array part, its other entries and a `nil`. -/
theorem wbTable_eq_ok_iff {one : ℕ → Object → WriteBlock → Except PackError WriteBlock} {t : Table}
    {top : ℕ} {wb wb' : WriteBlock} :
  wbTable one room t top wb = .ok wb' ↔ room top = true ∧ ∃ wb₁ wb₂,
    (List.range' 1 t.rawlen).foldlM (fun wb j => one (top + 1) (t.rawgeti j) wb)
      (wbTableHead wb t.rawlen) = .ok wb₁ ∧
    t.hashObjects.foldlM (fun wb e => one (top + 2) e.1 wb >>= fun wb => one (top + 2) e.2 wb) wb₁ =
      .ok wb₂ ∧ wbNil wb₂ = wb'
  := by
  have hskip := foldlM_skip (fun e : Object × Object => e.1.inArray t.rawlen)
    (fun wb e => one (top + 2) e.1 wb >>= fun wb => one (top + 2) e.2 wb) t.entries
  unfold wbTable
  cases room top with
  | false => exact ⟨nofun, fun h => nomatch h.1⟩
  | true =>
      rw [if_pos rfl]
      constructor
      · intro h
        obtain ⟨wb₁, harray, h⟩ := bind_eq_ok.mp h
        obtain ⟨wb₂, hhash, hend⟩ := bind_eq_ok.mp h
        exact ⟨rfl, wb₁, wb₂, harray, (hskip wb₁).symm.trans hhash, Except.ok.inj hend⟩
      · rintro ⟨-, wb₁, wb₂, harray, hhash, hend⟩
        apply bind_eq_ok.mpr
        use wb₁, harray
        apply bind_eq_ok.mpr
        exact ⟨wb₂, (hskip wb₁).trans hhash, congrArg Except.ok hend⟩

/-- A table, when what packs its keys and values appends what decodes to them. -/
theorem wbTable_packs {levels : ℕ} {one : ℕ → Object → WriteBlock → Except PackError WriteBlock}
    (hone : ∀ o, AllSerialisable heap o → ∀ top, Packs room heap levels o (one top o)) {ref : ℕ}
    (hserial : AllSerialisable heap (.table ref)) (top : ℕ) :
  Packs room heap (levels + 1) (.table ref) (wbTable one room (heap ref) top)
  := by
  intro wb wb' h
  obtain ⟨-, wb₁, wb₂, harray, hhash, hend⟩ := wbTable_eq_ok_iff.mp h
  obtain ⟨head, hhead, hspells⟩ := wbTableHead_writes wb (heap ref).rawlen_lt
  have hchild (o : Object) (ho : AllSerialisable heap o) (k : ℕ) (wb wb' : WriteBlock)
      (hpack : one (top + k) o wb = .ok wb') :
      ∃ x : Piece, wb'.contents = wb.contents ++ x.1 ∧
        Decodes room levels x.1 x.2 ∧ Equals heap o x.2 := by
    obtain ⟨bs, v, hx⟩ := hone o ho (top + k) wb wb' hpack
    exact ⟨(bs, v), hx⟩
  obtain ⟨array, harraybytes, hpieces⟩ := foldlM_appends Prod.fst
    (fun j (x : Piece) => Decodes room levels x.1 x.2 ∧ Equals heap ((heap ref).rawgeti j) x.2)
    _ (fun j _ => hchild _ (hserial.rawgeti j) 1) harray
  obtain ⟨hash, hhashbytes, hpairs⟩ := foldlM_appends Piece.pairBytes
    (fun (e : Object × Object) x => e.1.IsKey ∧ (Decodes room levels x.1.1 x.1.2 ∧ Equals heap e.1 x.1.2) ∧
      Decodes room levels x.2.1 x.2.2 ∧ Equals heap e.2 x.2.2)
    (heap ref).hashObjects (fun e he wb wb' hpair => by
      obtain ⟨wb₃, hkey, hvalue⟩ := bind_eq_ok.mp hpair
      have hmem := List.mem_of_mem_filter he
      have hserials := hserial.of_mem hmem
      obtain ⟨x, hx, hxdecodes⟩ := hchild e.1 hserials.1 2 wb wb₃ hkey
      obtain ⟨y, hy, hydecodes⟩ := hchild e.2 hserials.2 2 wb₃ wb' hvalue
      use (x, y)
      rw [hy, hx, List.append_assoc]
      exact ⟨rfl, (heap ref).isKey e hmem, hxdecodes, hydecodes⟩) hhash
  obtain ⟨bs, hnil, hspellsnil⟩ := wbNil_writes wb₂
  use head ++ array.flatMap Prod.fst ++ hash.flatMap Piece.pairBytes ++ bs
  use .table (setAll (setAll [] (arrayPairs 1 (array.map Prod.snd))) (hash.map fun x => (x.1.2, x.2.2)))
  refine ⟨?_, ?_, ?_⟩
  · rw [← hend, hnil, hhashbytes, harraybytes, hhead]
    simp only [List.append_assoc]
  · have hlength : (heap ref).rawlen = array.length := by
      rw [← hpieces.length_eq, List.length_range']
    rw [hlength] at hspells
    apply table_decodes hspells (forall_of_forall₂ hpieces fun _ _ h => h.1) _ hspellsnil.decodes
    exact forall_of_forall₂ hpairs fun _ _ ⟨hkey, hx, hy⟩ =>
      ⟨hx.1, hy.1, hx.2.isNil_of_isKey hkey, hx.2.isNaN_of_isKey hkey⟩
  · have harrayvalues : List.Forall₂ (fun j v => Equals heap ((heap ref).rawgeti j) v)
        (List.range' 1 (heap ref).rawlen) (array.map Prod.snd) :=
      List.forall₂_map_right_iff.mpr (hpieces.imp fun _ _ h => h.2)
    have hhashvalues : List.Forall₂ (EntryEquals heap) (heap ref).hashObjects
        (hash.map fun x => (x.1.2, x.2.2)) :=
      List.forall₂_map_right_iff.mpr (hpairs.imp fun _ _ h => ⟨h.2.1.2, h.2.2.2⟩)
    have hset := setAll_equals (List.rel_append (arrayPairs_equals (heap ref) harrayvalues) hhashvalues)
      (fun e he => isKey_of_mem he) keys_nodup .nil nofun
    rw [setAll, List.foldl_append] at hset
    exact .table entries_perm hset

/-- Packing appends bytes that decode to an equal value, with as many levels as are left. -/
theorem packOne_packs {depth levels : ℕ} (hdepth : depth + levels = MAX_DEPTH + 1) {o : Object}
    (hserial : AllSerialisable heap o) (top : ℕ) :
  Packs room heap levels o (packOne room heap depth top o)
  := by
  induction levels generalizing depth top o with
  | zero =>
      intro wb wb' h
      rw [packOne.eq_def, dif_pos (by omega)] at h
      cases h
  | succ levels ih =>
      intro wb wb' h
      rw [packOne.eq_def, dif_neg (by omega)] at h
      cases o with
      | nil => exact Except.ok.inj h ▸ (wbNil_writes wb).packs .nil
      | boolean b => exact Except.ok.inj h ▸ (wbBoolean_writes wb b).packs (.boolean b)
      | integer n =>
          obtain ⟨bs, hbs, hspells⟩ := wbInteger_writes wb n.le_toInt n.toInt_lt
          have hwrites : Writes wb (wbInteger wb n.toInt) (.plain (.integer n)) :=
            ⟨bs, hbs, hspells.spells⟩
          exact Except.ok.inj h ▸ hwrites.packs (.integer n)
      | number bits => exact Except.ok.inj h ▸ (wbReal_writes wb bits).packs (.number bits)
      | lightuserdata p => exact Except.ok.inj h ▸ (wbPointer_writes wb p).packs (.lightuserdata p)
      | string s =>
          have hs : s.length < 2 ^ 31 := hserial 0 _ (.here _)
          exact Except.ok.inj h ▸ (wbString_writes wb hs).packs (.string s)
      | table ref =>
          exact wbTable_packs (fun o ho top => ih (by omega) ho top) hserial top wb wb' h
      | other typename => cases h

/-! ### When packing succeeds -/

theorem foldlM_total {γ : Type} {f : WriteBlock → γ → Except PackError WriteBlock} (l : List γ)
    (hf : ∀ a ∈ l, ∀ wb, ∃ wb', f wb a = .ok wb') (wb : WriteBlock) :
  ∃ wb', l.foldlM f wb = .ok wb'
  := by
  induction l generalizing wb with
  | nil => exact ⟨wb, rfl⟩
  | cons a l ih =>
      obtain ⟨wb₁, ha⟩ := hf a List.mem_cons_self wb
      obtain ⟨wb', hl⟩ := ih (fun b hb => hf b (List.mem_cons_of_mem a hb)) wb₁
      use wb'
      rw [List.foldlM_cons]
      exact bind_eq_ok.mpr ⟨wb₁, ha, hl⟩

/-- What is at an index of the array part lies inside the table, if it is not `nil`; and if there is an array
part, something lies inside. -/
theorem inside_rawgeti {ref j k : ℕ} {w : Object} (hj : j ∈ List.range' 1 (heap ref).rawlen)
    (h : Inside heap k ((heap ref).rawgeti j) w) :
  ∃ w', Inside heap (k + 1) (.table ref) w'
  := by
  by_cases hnil : (heap ref).rawgeti j = .nil
  · rw [hnil] at h
    cases h
    rw [List.mem_range'_1] at hj
    rcases (heap ref).border with hzero | hlast
    · omega
    · exact ⟨_, .value (mem_of_lookup hlast) (.here _)⟩
  · exact ⟨w, .value (mem_of_lookup hnil) h⟩

/-- Objects that lie inside no more tables than are allowed are packed. -/
theorem packOne_total {depth levels : ℕ} (hdepth : depth + levels = MAX_DEPTH + 1) {o : Object}
    (hserial : AllSerialisable heap o) (hinside : ∀ k w, Inside heap k o w → depth + k ≤ MAX_DEPTH)
    {top : ℕ} (hroom : Roomy room levels top) (wb : WriteBlock) :
  ∃ wb', packOne room heap depth top o wb = .ok wb'
  := by
  induction levels generalizing depth top o wb with
  | zero =>
      have hhere := hinside 0 o (.here o)
      omega
  | succ levels ih =>
      rw [packOne.eq_def, dif_neg (by omega)]
      cases o with
      | other typename => exact absurd (hserial 0 _ (.here _)) id
      | table ref =>
          have hnext : depth + 1 + levels = MAX_DEPTH + 1 := by omega
          have htop : room top = true := hroom top (Nat.le_add_right _ _)
          have harray (j : ℕ) (hj : j ∈ List.range' 1 (heap ref).rawlen) (wb : WriteBlock) :
              ∃ wb', packOne room heap (depth + 1) (top + 1) ((heap ref).rawgeti j) wb = .ok wb' := by
            apply ih hnext (hserial.rawgeti j) _ (hroom.inner (by decide))
            intro k w hw
            obtain ⟨w', hw'⟩ := inside_rawgeti hj hw
            have hle := hinside (k + 1) w' hw'
            omega
          have hhash (e : Object × Object) (he : e ∈ (heap ref).hashObjects) (wb : WriteBlock) :
              ∃ wb', (packOne room heap (depth + 1) (top + 2) e.1 wb >>= fun wb =>
                packOne room heap (depth + 1) (top + 2) e.2 wb) = .ok wb' := by
            have hmem := List.mem_of_mem_filter he
            have hserials := hserial.of_mem hmem
            have hinner : Roomy room levels (top + 2) := hroom.inner (by decide)
            obtain ⟨wb₁, hkey⟩ := ih hnext hserials.1 (fun k w hw => by
              have hle := hinside (k + 1) w (.key hmem hw)
              omega) hinner wb
            obtain ⟨wb₂, hvalue⟩ := ih hnext hserials.2 (fun k w hw => by
              have hle := hinside (k + 1) w (.value hmem hw)
              omega) hinner wb₁
            exact ⟨wb₂, bind_eq_ok.mpr ⟨wb₁, hkey, hvalue⟩⟩
          obtain ⟨wb₁, hwb₁⟩ := foldlM_total (List.range' 1 (heap ref).rawlen) harray
            (wbTableHead wb (heap ref).rawlen)
          obtain ⟨wb₂, hwb₂⟩ := foldlM_total (heap ref).hashObjects hhash wb₁
          exact ⟨wbNil wb₂, wbTable_eq_ok_iff.mpr ⟨htop, wb₁, wb₂, hwb₁, hwb₂, rfl⟩⟩
      | _ => exact ⟨_, rfl⟩

/-! ### When packing fails -/

theorem le_of_packOne {depth top : ℕ} {o : Object} {wb wb' : WriteBlock}
    (h : packOne room heap depth top o wb = .ok wb') :
  depth ≤ MAX_DEPTH
  := by
  by_contra hdeep
  rw [packOne.eq_def, dif_pos (Nat.lt_of_not_le hdeep)] at h
  cases h

theorem foldlM_mem {γ : Type} {f : WriteBlock → γ → Except PackError WriteBlock} {l : List γ}
    {wb wb' : WriteBlock} (h : l.foldlM f wb = .ok wb') {a : γ} (ha : a ∈ l) :
  ∃ wb₁ wb₂, f wb₁ a = .ok wb₂
  := by
  induction l generalizing wb with
  | nil => cases ha
  | cons b l ih =>
      rw [List.foldlM_cons] at h
      obtain ⟨wb₁, hb, hl⟩ := bind_eq_ok.mp h
      rcases List.mem_cons.mp ha with rfl | ha
      · exact ⟨wb, wb₁, hb⟩
      · exact ih hl ha

/-- The value of each entry of a packed table is packed, and its key unless it is an index of the array
part. -/
theorem wbTable_parts {one : ℕ → Object → WriteBlock → Except PackError WriteBlock} {t : Table}
    {top : ℕ} {wb wb' : WriteBlock} (h : wbTable one room t top wb = .ok wb')
    {e : Object × Object} (he : e ∈ t.entries) :
  (∃ top wb wb', one top e.2 wb = .ok wb') ∧
    (e.1.inArray t.rawlen = true ∨ ∃ top wb wb', one top e.1 wb = .ok wb')
  := by
  obtain ⟨-, wb₁, wb₂, harray, hhash, -⟩ := wbTable_eq_ok_iff.mp h
  cases hindex : e.1.inArray t.rawlen with
  | true =>
      obtain ⟨j, hj, hkey⟩ := inArray_iff_index.mp hindex
      obtain ⟨wb₃, wb₄, hone⟩ := foldlM_mem harray hj
      have hvalue : t.rawgeti j = e.2 := by
        rw [Table.rawgeti, ← hkey, lookup_eq_of_mem he]
      rw [hvalue] at hone
      exact ⟨⟨_, wb₃, wb₄, hone⟩, Or.inl rfl⟩
  | false =>
      have hmem : e ∈ t.hashObjects := List.mem_filter.mpr ⟨he, by rw [hindex]; rfl⟩
      obtain ⟨wb₃, wb₄, hpair⟩ := foldlM_mem hhash hmem
      obtain ⟨wb₅, hkey, hvalue⟩ := bind_eq_ok.mp hpair
      exact ⟨⟨_, wb₅, wb₄, hvalue⟩, Or.inr ⟨_, wb₃, wb₅, hkey⟩⟩

theorem wbTable_of_packOne {depth top ref : ℕ} {wb wb' : WriteBlock}
    (h : packOne room heap depth top (.table ref) wb = .ok wb') :
  wbTable (fun top o wb => packOne room heap (depth + 1) top o wb) room (heap ref) top wb = .ok wb'
  := by
  have hdepth := le_of_packOne h
  rw [packOne.eq_def, dif_neg (Nat.not_lt.mpr hdepth)] at h
  exact h

/-- Where packing succeeds, nothing lies inside more tables than are allowed. -/
theorem inside_le_of_packOne {k : ℕ} {o w : Object} (hinside : Inside heap k o w) {depth top : ℕ}
    {wb wb' : WriteBlock} (h : packOne room heap depth top o wb = .ok wb') :
  depth + k ≤ MAX_DEPTH
  := by
  induction hinside generalizing depth top wb wb' with
  | here v => exact le_of_packOne h
  | @key k ref e w he hkey ih =>
      obtain ⟨⟨_, _, _, hvalue⟩, hindex | ⟨_, _, _, hpacked⟩⟩ := wbTable_parts (wbTable_of_packOne h) he
      · -- Nothing lies inside an index, and the value beside it is packed as deep.
        obtain ⟨x, hx, -⟩ := inArray_iff.mp hindex
        rw [hx] at hkey
        cases hkey
        exact le_of_packOne hvalue
      · have hle := ih hpacked
        omega
  | @value k ref e w he hvalue ih =>
      obtain ⟨⟨_, _, _, hpacked⟩, -⟩ := wbTable_parts (wbTable_of_packOne h) he
      have hle := ih hpacked
      omega

/-! ### The whole buffer -/

theorem unpackAll_decodes {levels level base : ℕ} {len : ℤ} {rb : ReadBlock} (pieces : List Piece)
    (vs : List Value) (hpieces : ∀ x ∈ pieces, Decodes room levels x.1 x.2)
    (hlevel : (pieces.flatMap Prod.fst).length ≤ level)
    (hroom : ∀ height ≤ base + vs.length + pieces.length + 2 * levels, room height = true)
    (hat : At len rb (pieces.flatMap Prod.fst)) {rounds : ℕ}
    (hrounds : (pieces.flatMap Prod.fst).length < rounds) :
  ∃ rb', unpackAll room level base rounds vs rb = .ok (vs ++ pieces.map Prod.snd) rb'
  := by
  have hcheck : vs.length % 8 = 7 → room (base + vs.length) = true :=
    fun _ => hroom _ (by omega)
  induction pieces generalizing vs rb rounds with
  | nil =>
      cases rounds with
      | zero => exact absurd hrounds (Nat.not_lt_zero _)
      | succ rounds =>
          use rb
          rw [unpackAll_nil level rounds hcheck hat, List.map_nil, List.append_nil]
  | cons x pieces ih =>
      obtain ⟨type, tail, hx, hread⟩ := hpieces x List.mem_cons_self
      rw [List.flatMap_cons, hx] at hat hlevel hrounds
      rw [List.length_append, List.length_cons] at hlevel hrounds
      have hinner : Roomy room levels (base + vs.length) := by
        intro height hheight
        apply hroom
        rw [List.length_cons]
        omega
      have htail : tail.length ≤ level := by omega
      have hsnoc : (vs ++ [x.2]).length = vs.length + 1 := by
        rw [List.length_append, List.length_singleton]
      have hroom' (height : ℕ)
          (hheight : height ≤ base + (vs ++ [x.2]).length + pieces.length + 2 * levels) :
          room height = true := by
        apply hroom
        rw [List.length_cons]
        omega
      cases rounds with
      | zero => exact absurd hrounds (Nat.not_lt_zero _)
      | succ rounds =>
          obtain ⟨rb₁, hat₁, hloop⟩ := unpackAll_cons level rounds hcheck hat
          obtain ⟨rb₂, hvalue, hat₂⟩ := hread htail hinner hat₁
          have hlevel' : (pieces.flatMap Prod.fst).length ≤ level := by omega
          have hrounds' : (pieces.flatMap Prod.fst).length < rounds := by omega
          obtain ⟨rb₃, hrest⟩ := ih (vs ++ [x.2]) (fun y hy => hpieces y (List.mem_cons_of_mem x hy))
            hlevel' hroom' hat₂ hrounds' fun _ => hroom' _ (by omega)
          use rb₃
          rw [hloop, bind_of_ok hvalue, hrest, List.map_cons, List.append_assoc, List.singleton_append]

/-- What packing a list of objects gives. -/
theorem pack_decodes {top : ℕ} {vs : List Object} (hserial : ∀ v ∈ vs, AllSerialisable heap v)
    {buffer : List UInt8} (h : pack room heap top vs = .ok buffer) :
  ∃ pieces : List Piece, buffer = pieces.flatMap Prod.fst ∧
    List.Forall₂ (fun o x => Decodes room (MAX_DEPTH + 1) x.1 x.2 ∧ Equals heap o x.2) vs pieces
  := by
  obtain ⟨wb, hpack, hbuffer⟩ := bind_eq_ok.mp h
  obtain ⟨pieces, hbytes, hpieces⟩ := foldlM_appends Prod.fst
    (fun o (x : Piece) => Decodes room (MAX_DEPTH + 1) x.1 x.2 ∧ Equals heap o x.2) vs
    (fun o ho wb wb' hone => by
      obtain ⟨bs, v, hx⟩ := packOne_packs (Nat.zero_add _) (hserial o ho) top wb wb' hone
      exact ⟨(bs, v), hx⟩) hpack
  use pieces
  rw [← Except.ok.inj hbuffer, seri_eq, hbytes, WriteBlock.contents_init, List.nil_append]
  exact ⟨rfl, hpieces⟩

/-- A buffer of bytes that decode is unpacked. -/
theorem unpack_decodes {base levels : ℕ} (pieces : List Piece)
    (hpieces : ∀ x ∈ pieces, Decodes room levels x.1 x.2)
    (hroom : ∀ height ≤ base + pieces.length + 2 * levels, room height = true)
    (hsize : (pieces.flatMap Prod.fst).length < 2 ^ 31) :
  ∃ rb, unpack room base (pieces.flatMap Prod.fst) = .ok (pieces.map Prod.snd) rb
  := by
  unfold unpack
  rw [toInt_of_lt hsize]
  by_cases hempty : (pieces.flatMap Prod.fst).length = 0
  · have hnil : pieces = [] := by
      cases pieces with
      | nil => rfl
      | cons x pieces =>
          have hpos := (hpieces x List.mem_cons_self).length_pos
          rw [List.flatMap_cons, List.length_append] at hempty
          omega
    rw [hnil]
    exact ⟨_, rfl⟩
  · have hat := at_start (Int.natCast_nonneg (pieces.flatMap Prod.fst).length) (Int.le_refl _)
    rw [Int.toNat_natCast, List.take_length] at hat
    have hne : ¬ ((pieces.flatMap Prod.fst).length : ℤ) = 0 := by omega
    rw [if_neg hne, Int.toNat_natCast]
    exact unpackAll_decodes pieces [] hpieces (Nat.le_succ _) hroom hat (Nat.lt_succ_self _)

/-- Objects that lie inside no more tables than are allowed are packed, and unpacking the buffer gives equal
values, wherever the values lie in the blocks; other objects are refused. -/
theorem unpack_pack (room : ℕ → Bool) (heap : Heap) (top base : ℕ) (vs : List Object)
    (hserial : ∀ v ∈ vs, AllSerialisable heap v)
    (hroom : ∀ height ≤ max top (base + vs.length) + 2 * (MAX_DEPTH + 1), room height = true) :
  ((∀ v ∈ vs, ∀ k w, Inside heap k v w → k ≤ MAX_DEPTH) →
    ∃ buffer, pack room heap top vs = .ok buffer ∧ (buffer.length < 2 ^ 31 →
      ∃ values rb, unpack room base buffer = .ok values rb ∧ List.Forall₂ (Equals heap) vs values)) ∧
  ((∃ v ∈ vs, ∃ k w, Inside heap k v w ∧ MAX_DEPTH < k) → ∃ e, pack room heap top vs = .error e)
  := by
  have hmax := Nat.le_max_left top (base + vs.length)
  have hmax' := Nat.le_max_right top (base + vs.length)
  constructor
  · intro hinside
    have hroomy : Roomy room (MAX_DEPTH + 1) top := fun height hheight => hroom height (by omega)
    obtain ⟨wb, hwb⟩ := foldlM_total vs (fun v hv wb => packOne_total (Nat.zero_add _) (hserial v hv)
      (fun k w hw => by
        rw [Nat.zero_add]
        exact hinside v hv k w hw) hroomy wb) WriteBlock.init
    have hpack : pack room heap top vs = .ok (seri wb) := bind_eq_ok.mpr ⟨wb, hwb, rfl⟩
    use seri wb, hpack
    intro hsize
    obtain ⟨pieces, hbuffer, hpieces⟩ := pack_decodes hserial hpack
    rw [hbuffer] at hsize ⊢
    have hlength := hpieces.length_eq
    have hbase : ∀ height ≤ base + pieces.length + 2 * (MAX_DEPTH + 1), room height = true :=
      fun height hheight => hroom height (by omega)
    obtain ⟨rb, hunpack⟩ := unpack_decodes pieces (forall_of_forall₂ hpieces fun _ _ h => h.1) hbase
      hsize
    use pieces.map Prod.snd, rb, hunpack
    exact List.forall₂_map_right_iff.mpr (hpieces.imp fun _ _ h => h.2)
  · rintro ⟨v, hv, k, w, hinside, hdeep⟩
    cases hpack : pack room heap top vs with
    | error e => exact ⟨e, rfl⟩
    | ok buffer =>
        obtain ⟨wb, hwb, -⟩ := bind_eq_ok.mp hpack
        obtain ⟨wb₁, wb₂, hone⟩ := foldlM_mem hwb hv
        have hle := inside_le_of_packOne hinside hone
        omega

/-- A table without entries. -/
def emptyTable : Table where
  entries := []
  rawlen := 0
  keys_nodup := List.nodup_nil
  isKey := nofun
  value_ne_nil := nofun
  rawlen_lt := zero_rawlen_lt
  border := Or.inl rfl
  border_succ := rfl

/-- The round trip of an integer and an empty table. -/
theorem unpack_pack_once :
  ∃ buffer, pack (fun _ => true) (fun _ => emptyTable) 4 [.integer 300, .table 0] = .ok buffer ∧
    (buffer.length < 2 ^ 31 → ∃ values rb, unpack (fun _ => true) 3 buffer = .ok values rb ∧
      List.Forall₂ (Equals fun _ => emptyTable) [.integer 300, .table 0] values)
  := by
  have hinside (v : Object) (hv : v ∈ [Object.integer 300, Object.table 0]) (k : ℕ) (w : Object)
      (h : Inside (fun _ => emptyTable) k v w) : k = 0 ∧ w = v := by
    rcases List.mem_cons.mp hv with rfl | hv
    · cases h
      exact ⟨rfl, rfl⟩
    · rw [List.mem_singleton.mp hv] at h ⊢
      cases h with
      | here => exact ⟨rfl, rfl⟩
      | key he => cases he
      | value he => cases he
  apply (unpack_pack (fun _ => true) (fun _ => emptyTable) 4 3 [.integer 300, .table 0] _
    fun _ _ => rfl).1
  · intro v hv k w h
    rw [(hinside v hv k w h).1]
    decide
  · intro v hv k w h
    rw [(hinside v hv k w h).2]
    rcases List.mem_cons.mp hv with rfl | hv
    · trivial
    · rw [List.mem_singleton.mp hv]
      trivial

end Seri
