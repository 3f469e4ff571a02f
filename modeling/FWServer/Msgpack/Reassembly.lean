import FWServer.Msgpack.Netpack
import Mathlib.Algebra.Order.Ring.Int
import Mathlib.Data.List.Basic
import Mathlib.Data.List.Induction

/-!
# Reassembly of packages

What the filter has stands for two things: for every descriptor the bytes that have arrived of a package
that is not complete, and the packages in the queue.  `Holds` relates a queue to these, and
`filterData_holds` says that the filter splits what it has kept for a descriptor and the chunk that
arrives, and keeps what is left over.

So nothing depends on how a stream is divided into chunks, or on what arrives for other descriptors in
between.
-/

namespace Netpack

open Framing

/-! ### What a queue stands for -/

/-- The bytes a record stands for. -/
def Uncomplete.bytes (uc : Uncomplete) : List UInt8 :=
  if uc.read < 0 then [uc.header]
  else UInt8.ofNat (uc.pack.size / 256) :: UInt8.ofNat uc.pack.size :: uc.pack.buffer

/-- A record has the first byte of the size, or the size and less than the package. -/
def Uncomplete.Partial (uc : Uncomplete) : Prop :=
  uc.read = -1 ∨
  uc.read = uc.pack.buffer.length ∧ uc.pack.buffer.length < uc.pack.size ∧ uc.pack.size ≤ 0xFFFF

/-- The records of a descriptor in a chain. -/
def records (fd : Fd) (chain : List Uncomplete) : List Uncomplete :=
  chain.filter fun uc => uc.pack.id = fd

/-- The records of a descriptor that stand for some bytes: none for no bytes, and otherwise one. -/
inductive Recorded : List Uncomplete → List UInt8 → Prop
  | nothing : Recorded [] []
  | one {uc : Uncomplete} (h : uc.Partial) : Recorded [uc] uc.bytes

/-- The queue keeps the bytes `kept` for the descriptors, and has the packages `queued`. -/
structure Holds (q : Option Queue) (kept : Fd → List UInt8) (queued : List Pack) : Prop where
  home : ∀ h uc, uc ∈ (getQueue q).hash h → hashFd uc.pack.id = h
  kept : ∀ fd, Recorded (records fd ((getQueue q).hash (hashFd fd))) (kept fd)
  queued : (getQueue q).ring.contents = queued

/-- The package with a payload. -/
def packOf (fd : Fd) (payload : List UInt8) : Pack :=
  ⟨fd, payload.length, payload⟩

/-- What the filter returns for the packages it finds and what is left over. -/
def verdict (fd : Fd) : List (List UInt8) → List UInt8 → Result
  | [], _ => .nothing
  | [msg], [] => .data fd msg msg.length
  | _, _ => .more

/-- Where nothing is kept there is no record. -/
theorem Recorded.eq_nil {l : List Uncomplete} {bytes : List UInt8} (h : Recorded l bytes)
    (hbytes : bytes = []) :
  l = []
  := by
  cases h with
  | nothing => rfl
  | one huc =>
      unfold Uncomplete.bytes at hbytes
      split at hbytes <;> cases hbytes

theorem Recorded.map_bytes {l : List Uncomplete} {bytes : List UInt8} (h : Recorded l bytes) :
  l.map Uncomplete.bytes = if bytes = [] then [] else [bytes]
  := by
  split
  · next hbytes => rw [h.eq_nil hbytes, List.map_nil]
  · next hbytes =>
      cases h with
      | nothing => exact absurd rfl hbytes
      | one huc => rfl

theorem holds_none :
  Holds none (fun _ => []) []
  where
  home _ _ := nofun
  kept _ := .nothing
  queued := rfl

section Chains

variable {q : Option Queue} {kept : Fd → List UInt8} {queued : List Pack} {fd : Fd}

theorem unlink_eq_none {chain : List Uncomplete} (h : unlink fd chain = none) :
  records fd chain = []
  := by
  induction chain with
  | nil => rfl
  | cons uc chain ih =>
      unfold unlink at h
      split at h
      · cases h
      · next hne =>
          rw [Option.map_eq_none_iff] at h
          rw [records, List.filter_cons_of_neg (by simpa using hne)]
          exact ih h

/-- The first record of the descriptor is taken out, and the others stay. -/
theorem unlink_eq_some {chain rest : List Uncomplete} {uc : Uncomplete}
    (h : unlink fd chain = some (uc, rest)) :
  uc.pack.id = fd ∧ records fd chain = uc :: records fd rest ∧
    (∀ fd', fd' ≠ fd → records fd' rest = records fd' chain) ∧ ∀ x ∈ rest, x ∈ chain
  := by
  induction chain generalizing rest with
  | nil => cases h
  | cons x chain ih =>
      unfold unlink at h
      split at h
      · next hid =>
          obtain ⟨rfl, rfl⟩ := Prod.mk.inj (Option.some.inj h)
          refine ⟨hid, ?_, ?_, fun y hy => List.mem_cons_of_mem _ hy⟩
          · rw [records, List.filter_cons_of_pos (by simpa using hid)]
            rfl
          · intro fd' hfd'
            rw [records, records, List.filter_cons_of_neg]
            rw [decide_eq_true_eq, hid]
            exact hfd'.symm
      · next hne =>
          obtain ⟨⟨found, rest'⟩, hfound, heq⟩ := Option.map_eq_some_iff.mp h
          obtain ⟨rfl, rfl⟩ := Prod.mk.inj heq
          obtain ⟨hid, hrecords, hothers, hmem⟩ := ih hfound
          refine ⟨hid, ?_, ?_, ?_⟩
          · rw [records, List.filter_cons_of_neg (by simpa using hne), records,
              List.filter_cons_of_neg (by simpa using hne)]
            exact hrecords
          · intro fd' hfd'
            simp only [records, List.filter_cons]
            split
            · exact congrArg (x :: ·) (hothers fd' hfd')
            · exact hothers fd' hfd'
          · intro y hy
            rw [List.mem_cons] at hy ⊢
            exact hy.imp id (hmem y)

/-- There is no record of a descriptor for which nothing is kept. -/
theorem Holds.find_none (h : Holds q kept queued) (hfind : findUncomplete q fd = none) :
  kept fd = []
  := by
  have hkept := h.kept fd
  have hrecords : records fd ((getQueue q).hash (hashFd fd)) = [] := by
    cases q with
    | none => rfl
    | some q => exact unlink_eq_none (Option.map_eq_none_iff.mp hfind)
  rw [hrecords] at hkept
  generalize kept fd = bytes at hkept
  cases hkept
  rfl

/-- The record of a descriptor stands for what is kept, which is then no longer kept. -/
theorem Holds.find_some (h : Holds q kept queued) {uc : Uncomplete} {q' : Queue}
    (hfind : findUncomplete q fd = some (uc, q')) :
  uc.pack.id = fd ∧ uc.Partial ∧ uc.bytes = kept fd ∧
    Holds (some q') (Function.update kept fd []) queued
  := by
  obtain ⟨q, rfl, hfind⟩ := Option.bind_eq_some_iff.mp hfind
  obtain ⟨⟨uc', rest⟩, hunlink, heq⟩ := Option.map_eq_some_iff.mp hfind
  obtain ⟨rfl, rfl⟩ := Prod.mk.inj heq
  obtain ⟨hid, hrecords, hothers, hmem⟩ := unlink_eq_some hunlink
  have hkept := h.kept fd
  have hone : uc'.Partial ∧ uc'.bytes = kept fd ∧ records fd rest = [] := by
    change Recorded (records fd (q.hash (hashFd fd))) (kept fd) at hkept
    rw [hrecords] at hkept
    generalize hbytes : kept fd = bytes at hkept
    generalize hrest : records fd rest = others at hkept
    cases hkept with
    | one hfilling => exact ⟨hfilling, rfl, rfl⟩
  obtain ⟨hfilling, hbytes, hrest⟩ := hone
  refine ⟨hid, hfilling, hbytes, ?_, ?_, h.queued⟩
  · intro k x hx
    change x ∈ Function.update q.hash (hashFd fd) rest k at hx
    rcases eq_or_ne k (hashFd fd) with rfl | hne
    · rw [Function.update_self] at hx
      exact h.home _ x (hmem x hx)
    · rw [Function.update_of_ne hne] at hx
      exact h.home k x hx
  · intro fd'
    change Recorded (records fd' (Function.update q.hash (hashFd fd) rest (hashFd fd'))) _
    rcases eq_or_ne fd' fd with rfl | hne
    · rw [Function.update_self, Function.update_self, hrest]
      exact .nothing
    · rw [Function.update_of_ne hne]
      rcases eq_or_ne (hashFd fd') (hashFd fd) with heq | hhash
      · have hkept' : Recorded (records fd' (q.hash (hashFd fd'))) (kept fd') := h.kept fd'
        rw [heq] at hkept' ⊢
        rw [Function.update_self, hothers fd' hne]
        exact hkept'
      · rw [Function.update_of_ne hhash]
        exact h.kept fd'

/-- A record is kept for a descriptor that has none. -/
theorem Holds.save (h : Holds q kept queued) {uc : Uncomplete} (hid : uc.pack.id = fd)
    (hnone : kept fd = []) (huc : uc.Partial) :
  Holds (some (saveUncomplete q uc)) (Function.update kept fd uc.bytes) queued
  := by
  subst hid
  refine ⟨?_, ?_, h.queued⟩
  · intro k x hx
    change x ∈ Function.update (getQueue q).hash (hashFd uc.pack.id) _ k at hx
    rcases eq_or_ne k (hashFd uc.pack.id) with rfl | hne
    · rw [Function.update_self, List.mem_cons] at hx
      obtain rfl | hx := hx
      · rfl
      · exact h.home _ x hx
    · rw [Function.update_of_ne hne] at hx
      exact h.home k x hx
  · intro fd'
    change Recorded (records fd' (Function.update (getQueue q).hash (hashFd uc.pack.id) _ (hashFd fd')))
      _
    have hkept := h.kept fd'
    rcases eq_or_ne fd' uc.pack.id with rfl | hne
    · rw [hnone] at hkept
      rw [Function.update_self, Function.update_self, records, List.filter_cons_of_pos (by simp)]
      change Recorded (uc :: records uc.pack.id _) _
      rw [hkept.eq_nil rfl]
      exact .one huc
    · rw [Function.update_of_ne hne]
      rcases eq_or_ne (hashFd fd') (hashFd uc.pack.id) with heq | hhash
      · rw [heq] at hkept ⊢
        rw [Function.update_self, records, List.filter_cons_of_neg (by simpa using hne.symm)]
        exact hkept
      · rw [Function.update_of_ne hhash]
        exact hkept

/-- A package is put in the queue. -/
theorem Holds.push (h : Holds q kept queued) (fd : Fd) (payload : List UInt8) :
  Holds (some (pushData q fd payload payload.length)) kept (queued ++ [packOf fd payload])
  := by
  refine ⟨h.home, h.kept, ?_⟩
  rw [← h.queued]
  exact RingBuffer.contents_push _ _ _ _

end Chains

/-! ### The filter splits the stream -/

section Filter

variable {q : Option Queue} {kept : Fd → List UInt8} {queued : List Pack} {fd : Fd}

theorem readSize_eq (b₀ b₁ : UInt8) :
  readSize b₀ b₁ = size b₀ b₁
  := by
  rw [readSize, ← Nat.shiftLeft_add_eq_or_of_lt b₁.toNat_lt, Nat.shiftLeft_eq]
  rfl

/-- A record of the size and the beginning of a package. -/
theorem Holds.save_part (h : Holds q kept queued) (hnone : kept fd = []) {b₀ b₁ : UInt8}
    {buffer : List UInt8} (hlt : buffer.length < size b₀ b₁) (header : UInt8) :
  Holds (some (saveUncomplete q ⟨⟨fd, size b₀ b₁, buffer⟩, buffer.length, header⟩))
    (Function.update kept fd (b₀ :: b₁ :: buffer)) queued
  := by
  have hbytes : (⟨⟨fd, size b₀ b₁, buffer⟩, buffer.length, header⟩ : Uncomplete).bytes
      = b₀ :: b₁ :: buffer := by
    have hread : ¬ (buffer.length : ℤ) < 0 := Int.not_lt.mpr (Int.natCast_nonneg _)
    rw [Uncomplete.bytes, if_neg hread]
    dsimp only
    rw [ofNat_size_div, ofNat_size]
  have hsave : Holds _ (Function.update kept fd
      (⟨⟨fd, size b₀ b₁, buffer⟩, buffer.length, header⟩ : Uncomplete).bytes) queued :=
    h.save rfl hnone (.inr ⟨rfl, hlt, size_lt b₀ b₁⟩)
  rwa [hbytes] at hsave

/-- A record of the first byte of a size. -/
theorem Holds.save_header (h : Holds q kept queued) (hnone : kept fd = []) (b : UInt8) :
  Holds (some (saveUncomplete q ⟨⟨fd, 0, []⟩, -1, b⟩)) (Function.update kept fd [b]) queued
  := by
  let uc : Uncomplete := ⟨⟨fd, 0, []⟩, -1, b⟩
  have huc : uc.Partial := .inl rfl
  exact h.save rfl hnone huc

/-- Putting what is left of a chunk in the queue splits it. -/
theorem pushMore_holds (h : Holds q kept queued) (hnone : kept fd = []) (buffer : List UInt8) :
  Holds (pushMore q fd buffer) (Function.update kept fd (split buffer).2)
    (queued ++ (split buffer).1.map (packOf fd))
  := by
  fun_induction pushMore q fd buffer generalizing queued with
  | case1 q =>
      rw [split_nil, List.map_nil, List.append_nil]
      dsimp only
      rw [← hnone, Function.update_eq_self]
      exact h
  | case2 q b =>
      rw [split_singleton, List.map_nil, List.append_nil]
      exact h.save_header hnone b
  | case3 q b₀ b₁ buffer packSize =>
      rename_i hlt
      have hsize : packSize = size b₀ b₁ := readSize_eq b₀ b₁
      rw [hsize] at hlt ⊢
      rw [split_of_lt hlt, List.map_nil, List.append_nil]
      exact h.save_part hnone hlt 0
  | case4 q b₀ b₁ buffer packSize =>
      rename_i hle q' rest hrest ih
      have hsize : packSize = size b₀ b₁ := readSize_eq b₀ b₁
      have hle' := Nat.le_of_not_lt hle
      have hpush := h.push fd (buffer.take packSize)
      rw [List.length_take_of_le hle'] at hpush
      have hmore := ih hpush
      rw [split_of_le (hsize ▸ hle'), ← hsize, List.map_cons]
      rwa [List.append_assoc, List.singleton_append] at hmore
  | case5 q b₀ b₁ buffer packSize =>
      rename_i hle q' rest hrest
      have hsize : packSize = size b₀ b₁ := readSize_eq b₀ b₁
      have hle' := Nat.le_of_not_lt hle
      have hpush := h.push fd (buffer.take packSize)
      rw [List.length_take_of_le hle'] at hpush
      have hnil : buffer.drop packSize = [] :=
        List.length_eq_zero_iff.mp (Nat.eq_zero_of_not_pos hrest)
      rw [split_of_le (hsize ▸ hle'), ← hsize, hnil, split_nil, List.map_cons, List.map_nil]
      dsimp only
      rw [← hnone, Function.update_eq_self]
      exact hpush

/-- There is more to return than one package. -/
theorem verdict_of_rest (fd : Fd) (payload rest : List UInt8) (hrest : rest ≠ []) :
  verdict fd (payload :: (split rest).1) (split rest).2 = .more
  := by
  cases hpayloads : (split rest).1 with
  | nil =>
      rw [split_snd_of_nil hpayloads]
      cases rest with
      | nil => exact absurd rfl hrest
      | cons b rest => rfl
  | cons p payloads => rfl

/-- What the filter leaves in the queue for the packages it finds and what is left over. -/
def deferred (fd : Fd) (payloads : List (List UInt8)) (rest : List UInt8) : List Pack :=
  if verdict fd payloads rest = .more then payloads.map (packOf fd) else []

/-- A package that is complete is returned, or put in the queue with what follows it. -/
theorem complete_holds (h : Holds q kept queued) (hnone : kept fd = []) (payload rest : List UInt8) :
  let x := if rest.length = 0 then (q, Result.data fd payload payload.length)
    else (pushMore (some (pushData q fd payload payload.length)) fd rest, .more)
  let payloads := payload :: (split rest).1
  Holds x.1 (Function.update kept fd (split rest).2) (queued ++ deferred fd payloads (split rest).2) ∧
    x.2 = verdict fd payloads (split rest).2
  := by
  dsimp only
  split
  · next hrest =>
      obtain rfl := List.length_eq_zero_iff.mp hrest
      rw [split_nil]
      dsimp only
      rw [← hnone, Function.update_eq_self, hnone, deferred, if_neg nofun, List.append_nil]
      exact ⟨h, rfl⟩
  · next hrest =>
      have hverdict := verdict_of_rest fd payload rest fun hnil => hrest (hnil ▸ rfl)
      rw [deferred, hverdict, if_pos rfl, List.map_cons]
      have hmore := pushMore_holds (h.push fd payload) hnone rest
      rw [List.append_assoc, List.singleton_append] at hmore
      exact ⟨hmore, rfl⟩

/-- Once its size has been read, a record and what has arrived since are a stream of a size and bytes. -/
theorem fillHeader_bytes {uc : Uncomplete} (h : uc.Partial) {chunk : List UInt8}
    (hchunk : chunk ≠ []) :
  ∃ b₀ b₁ buffer rest header,
    fillHeader uc chunk = (⟨⟨uc.pack.id, size b₀ b₁, buffer⟩, buffer.length, header⟩, rest) ∧
    buffer.length ≤ size b₀ b₁ ∧ uc.bytes ++ chunk = b₀ :: b₁ :: (buffer ++ rest)
  := by
  obtain ⟨⟨id, n, buffer⟩, read, header⟩ := uc
  obtain hread | ⟨hread, hlt, hle⟩ := h
  · obtain rfl : read = -1 := hread
    cases chunk with
    | nil => exact absurd rfl hchunk
    | cons b chunk =>
        have hsize : b.toNat ||| header.toNat <<< 8 = size header b := by
          rw [Nat.or_comm, ← readSize_eq]
          rfl
        refine ⟨header, b, [], chunk, header, ?_, Nat.zero_le _, rfl⟩
        unfold fillHeader
        dsimp only
        rw [if_pos (by decide), hsize]
        rfl
  · obtain rfl : read = buffer.length := hread
    dsimp only at hlt hle
    have hsize := size_ofNat hle
    have hpos : ¬ (buffer.length : ℤ) < 0 := Int.not_lt.mpr (Int.natCast_nonneg _)
    refine ⟨UInt8.ofNat (n / 256), UInt8.ofNat n, buffer, chunk, header, ?_, ?_, ?_⟩
    · unfold fillHeader
      dsimp only
      rw [if_neg hpos, hsize]
    · rw [hsize]
      exact hlt.le
    · rw [Uncomplete.bytes, if_neg hpos]
      rfl

/-- The filter splits what it has kept for a descriptor and the chunk that arrives. -/
theorem filterData_holds (h : Holds q kept queued) (fd : Fd) {chunk : List UInt8}
    (hchunk : chunk ≠ []) :
  let x := filterData q fd chunk
  let y := split (kept fd ++ chunk)
  Holds x.1 (Function.update kept fd y.2) (queued ++ deferred fd y.1 y.2) ∧ x.2 = verdict fd y.1 y.2
  := by
  dsimp only
  unfold filterData
  cases hfind : findUncomplete q fd with
  | none =>
      have hnone := h.find_none hfind
      rw [hnone, List.nil_append]
      match chunk with
      | [] => exact absurd rfl hchunk
      | [b] =>
          rw [split_singleton, deferred, if_neg nofun, List.append_nil]
          exact ⟨h.save_header hnone b, rfl⟩
      | b₀ :: b₁ :: buffer =>
          dsimp only
          rw [readSize_eq]
          split
          · next hlt =>
              rw [split_of_lt hlt, deferred, if_neg nofun, List.append_nil]
              exact ⟨h.save_part hnone hlt 0, rfl⟩
          · next hle =>
              have hle' := Nat.le_of_not_lt hle
              have hcomplete := complete_holds h hnone (buffer.take (size b₀ b₁))
                (buffer.drop (size b₀ b₁))
              rw [List.length_take_of_le hle', List.length_drop] at hcomplete
              rw [split_of_le hle']
              split
              · next hone =>
                  rw [hone, Nat.sub_self, if_pos rfl, ← hone, List.take_length] at hcomplete
                  rw [← hone, List.take_length]
                  exact hcomplete
              · next hmore =>
                  rwa [if_neg (by omega)] at hcomplete
  | some found =>
      obtain ⟨uc, q'⟩ := found
      obtain ⟨hid, hfilling, hbytes, h'⟩ := h.find_some hfind
      obtain ⟨b₀, b₁, buffer, rest, header, hfill, hle, heq⟩ := fillHeader_bytes hfilling hchunk
      have hnone : Function.update kept fd [] fd = [] := Function.update_self _ _ _
      rw [← hbytes, heq]
      dsimp only
      rw [hfill]
      dsimp only
      rw [Int.toNat_sub, hid]
      split
      · next hlt =>
          have hlt' : (buffer ++ rest).length < size b₀ b₁ := by
            rw [List.length_append]
            omega
          have hread : (buffer.length : ℤ) + rest.length = (buffer ++ rest).length := by
            rw [List.length_append, Int.natCast_add]
          have hsave := h'.save_part hnone hlt' header
          rw [Function.update_idem] at hsave
          rw [split_of_lt hlt', deferred, if_neg nofun, List.append_nil, hread]
          exact ⟨hsave, rfl⟩
      · next hge =>
          have hle' : size b₀ b₁ ≤ (buffer ++ rest).length := by
            rw [List.length_append]
            omega
          have hmsg : (buffer ++ rest.take (size b₀ b₁ - buffer.length)).length = size b₀ b₁ := by
            rw [List.length_append, List.length_take]
            omega
          have hcomplete := complete_holds h' hnone (buffer ++ rest.take (size b₀ b₁ - buffer.length))
            (rest.drop (size b₀ b₁ - buffer.length))
          rw [hmsg, Function.update_idem] at hcomplete
          rw [split_of_le hle', List.take_append, List.drop_append, List.take_of_length_le hle,
            List.drop_of_length_le hle, List.nil_append]
          exact hcomplete

/-- The first package is taken out of the queue. -/
theorem Holds.pop (h : Holds q kept queued) {pack : Pack} {q' : Queue}
    (hpop : lpop q = some (pack, q')) :
  queued = pack :: q'.ring.contents ∧ Holds (some q') kept q'.ring.contents
  := by
  use h.queued.symm.trans (lpop_contents hpop)
  obtain ⟨q, rfl, hmap⟩ := Option.bind_eq_some_iff.mp hpop
  obtain ⟨⟨pack', ring⟩, -, heq⟩ := Option.map_eq_some_iff.mp hmap
  obtain ⟨rfl, rfl⟩ := Prod.mk.inj heq
  exact ⟨h.home, h.kept, rfl⟩

/-- Draining the queue takes out the packages in it, in order. -/
theorem drain_holds (h : Holds q kept queued) :
  (drain q).1 = queued ∧ Holds (drain q).2 kept []
  := by
  fun_induction drain q generalizing queued with
  | case1 q hpop =>
      have hqueued : [] = queued := (lpop_eq_none.mp hpop).symm.trans h.queued
      exact ⟨hqueued, hqueued ▸ h⟩
  | case2 q pack q' hpop packs q'' hdrain ih =>
      obtain ⟨rfl, hq'⟩ := h.pop hpop
      obtain ⟨hpacks, hq''⟩ := ih hq'
      rw [hdrain] at hpacks hq''
      obtain rfl : packs = q'.ring.contents := hpacks
      exact ⟨rfl, hq''⟩

/-- When a chunk arrives, the packages completed by it are delivered. -/
theorem receive_holds (h : Holds q kept []) (fd : Fd) {chunk : List UInt8} (hchunk : chunk ≠ []) :
  let x := receive q fd chunk
  let y := split (kept fd ++ chunk)
  x.1 = y.1.map (packOf fd) ∧ Holds x.2 (Function.update kept fd y.2) []
  := by
  obtain ⟨hfilter, hverdict⟩ := filterData_holds h fd hchunk
  dsimp only
  unfold receive lfilter
  generalize filterData q fd chunk = x at hfilter hverdict
  generalize split (kept fd ++ chunk) = y at hfilter hverdict ⊢
  obtain ⟨q', result⟩ := x
  obtain ⟨payloads, rest⟩ := y
  obtain rfl : result = verdict fd payloads rest := hverdict
  unfold deferred at hfilter
  match payloads, rest with
  | [], rest => exact ⟨rfl, hfilter⟩
  | [payload], [] => exact ⟨rfl, hfilter⟩
  | [payload], b :: rest => exact drain_holds hfilter
  | payload :: payload' :: payloads, rest => exact drain_holds hfilter

end Filter

/-! ### Streams -/

/-- The bytes that arrive for a descriptor. -/
def streamOf (fd : Fd) (arrivals : List (Fd × List UInt8)) : List UInt8 :=
  (arrivals.filter fun x => x.1 = fd).flatMap Prod.snd

/-- The packages of a descriptor. -/
def packsOf (fd : Fd) (packs : List Pack) : List Pack :=
  packs.filter fun pack => pack.id = fd

theorem streamOf_append (fd : Fd) (arrivals : List (Fd × List UInt8)) (x : Fd × List UInt8) :
  streamOf fd (arrivals ++ [x]) = streamOf fd arrivals ++ if x.1 = fd then x.2 else []
  := by
  rw [streamOf, List.filter_append, List.flatMap_append, streamOf]
  congr 1
  by_cases h : x.1 = fd
  · simp [h]
  · simp [h]

theorem packsOf_packOf (fd fd' : Fd) (payloads : List (List UInt8)) :
  packsOf fd (payloads.map (packOf fd')) = if fd' = fd then payloads.map (packOf fd) else []
  := by
  unfold packsOf
  split
  · next h =>
      subst h
      apply List.filter_eq_self.mpr
      intro pack hpack
      obtain ⟨payload, -, rfl⟩ := List.mem_map.mp hpack
      exact decide_eq_true rfl
  · next h =>
      apply List.filter_eq_nil_iff.mpr
      intro pack hpack
      obtain ⟨payload, -, rfl⟩ := List.mem_map.mp hpack
      rw [decide_eq_true_eq]
      exact h

/-- Whatever arrives, the packages delivered for a descriptor are those its stream begins with, and what
is kept for it is what is left over of its stream. -/
theorem receiveAll_holds {arrivals : List (Fd × List UInt8)} (h : ∀ x ∈ arrivals, x.2 ≠ []) :
  (∀ fd, packsOf fd (receiveAll arrivals).1 = (split (streamOf fd arrivals)).1.map (packOf fd)) ∧
  Holds (receiveAll arrivals).2 (fun fd => (split (streamOf fd arrivals)).2) []
  := by
  induction arrivals using List.reverseRecOn with
  | nil =>
      have hnil : ∀ fd, split (streamOf fd []) = ([], []) := fun fd => split_nil
      simp only [hnil]
      exact ⟨fun _ => rfl, holds_none⟩
  | append_singleton arrivals x ih =>
      obtain ⟨hpacks, hholds⟩ := ih fun y hy => h y (List.mem_append_left _ hy)
      obtain ⟨hnew, hholds'⟩ := receive_holds hholds x.1
        (h x (List.mem_append_right _ (List.mem_singleton_self x)))
      have hstep : receiveAll (arrivals ++ [x]) = ((receiveAll arrivals).1
          ++ (receive (receiveAll arrivals).2 x.1 x.2).1, (receive (receiveAll arrivals).2 x.1 x.2).2) := by
        rw [receiveAll, List.foldl_append]
        rfl
      rw [hstep]
      constructor
      · intro fd
        dsimp only
        rw [streamOf_append, split_append, List.map_append, ← hpacks fd, hnew, packsOf,
          List.filter_append, ← packsOf, ← packsOf, packsOf_packOf]
        split
        · next heq => rw [heq]
        · rw [List.append_nil, List.append_nil, split_rest, List.map_nil, List.append_nil]
      · have hkept : (fun fd => (split (streamOf fd (arrivals ++ [x]))).2)
            = Function.update (fun fd => (split (streamOf fd arrivals)).2) x.1
              (split ((split (streamOf x.1 arrivals)).2 ++ x.2)).2 := by
          funext fd
          rw [streamOf_append, split_append]
          rcases eq_or_ne fd x.1 with rfl | hne
          · rw [Function.update_self, if_pos rfl]
          · rw [Function.update_of_ne hne, if_neg hne.symm, List.append_nil, split_rest]
        rw [hkept]
        exact hholds'

/-- What the records of a descriptor stand for. -/
def incomplete (fd : Fd) (q : Option Queue) : List (List UInt8) :=
  (records fd ((getQueue q).hash (hashFd fd))).map Uncomplete.bytes

/-- However the streams of the descriptors are divided into chunks and whatever the order they arrive in:
if the stream of a descriptor is made of frames and the beginning of a frame, then the packages delivered
for it are the payloads of the frames, in order, what is kept for it is that beginning, and the queue is
empty. -/
theorem chunks_reassembled {arrivals : List (Fd × List UInt8)} (h : ∀ x ∈ arrivals, x.2 ≠ [])
    {fd : Fd} {payloads : List (List UInt8)} {rest : List UInt8}
    (hpayloads : ∀ p ∈ payloads, p.length ≤ 0xFFFF) (hrest : Incomplete rest)
    (hstream : streamOf fd arrivals = payloads.flatMap encode ++ rest) :
  let x := receiveAll arrivals
  packsOf fd x.1 = payloads.map (packOf fd) ∧
  incomplete fd x.2 = (if rest = [] then [] else [rest]) ∧
  lpop x.2 = none
  := by
  obtain ⟨hpacks, hholds⟩ := receiveAll_holds h
  have hsplit := split_stream hpayloads hrest
  rw [← hstream] at hsplit
  refine ⟨?_, ?_, ?_⟩
  · rw [hpacks, hsplit]
  · have hkept := hholds.kept fd
    rw [hsplit] at hkept
    exact hkept.map_bytes
  · exact lpop_eq_none.mpr hholds.queued

/-- Chunks of two descriptors whose records are in one chain: a size arrives in two chunks, and a chunk
holds the end of a package, an empty one and the beginning of a third. -/
def collision : List (Fd × List UInt8) :=
  [(1, [0]), (0x1000, [0, 2, 7]), (1, [2, 5]), (1, [6, 0, 0, 0, 3, 8]), (0x1000, [9])]

theorem chunks_reassembled_collision :
  hashFd 1 = hashFd 0x1000 ∧
  let x := receiveAll collision
  packsOf 1 x.1 = [[5, 6], []].map (packOf 1) ∧ incomplete 1 x.2 = [[0, 3, 8]] ∧ lpop x.2 = none
  := by
  have hrest : Incomplete [0, 3, 8] := ⟨[8, 0, 0], [0, 0], by decide, by decide, by decide⟩
  exact ⟨by decide, chunks_reassembled (by decide) (by decide) hrest (by decide)⟩

end Netpack
