import FWServer.Kernel.ChunkQueue
import FWServer.Kernel.Machine
import FWServer.Skynet.DatabufferLists
import Mathlib.Data.List.Perm.Subperm

/-!
# The buffers as queues

A buffer of the gate is a queue of chunks, and so a queue of bytes: `Shape.readLoop` is what reading does to the lists
of messages, in the words of `ChunkQueue.copy`.  The number of bytes left is kept in an `int`; it is right in all
states of a run exactly when no push makes a buffer hold 2^31 bytes or more.
-/

namespace Skynet

namespace MessagePool

variable {ι β : Type} {data : β → List UInt8} {mp mp' : Pool β} {m : ℕ} {g : ι → Databuffer}
  {db : Databuffer} {lists : Option ι → List ℕ} {blocks : ι → List β} {i : ι} {b : β} {bs : List β}

/-! ### Reading -/

theorem memcpy_eq {offset n : ℕ} (h : offset + n ≤ (data b).length) (size : ℤ) (next : Option ℕ) :
  memcpy data ⟨some b, size, next⟩ offset n = some (((data b).drop offset).take n)
  := by
  have h' : (0 : ℤ) ≤ offset ∧ (0 : ℤ) ≤ n ∧ (offset : ℤ) + n ≤ (data b).length := by omega
  simp only [memcpy, Option.bind_eq_bind, Option.bind_some, if_pos h', Int.toNat_natCast]

/-- A buffer with a block has a message. -/
theorem Shape.exists_cons {heap : Heap ι β} (h : Shape data heap lists blocks) (hb : blocks i = b :: bs) :
  ∃ m l, lists (some i) = m :: l
  := by
  have hloads := h.loads i
  rw [hb] at hloads
  cases hl : lists (some i) with
  | nil =>
      rw [hl] at hloads
      cases hloads
  | cons m l => use m, l

variable [DecidableEq ι]

/-- Reading copies from the blocks as from a queue of chunks, and frees the blocks that have been read. -/
theorem Shape.readLoop (h : Shape data (.put g i db mp) lists blocks) (hb : blocks i = bs) {fuel offset sz : ℕ}
    (hfuel : bs.length ≤ fuel) (hoffset : db.offset = offset) (hle : offset ≤ ((bs.map data).headD []).length)
    (hpos : 0 < sz) (hsz : offset + sz ≤ (bs.map data).flatten.length) :
  ∃ db' mp' freed left lists',
    readLoop data fuel db mp sz = some ((ChunkQueue.copy (bs.map data) offset sz).1, db', mp', freed) ∧
    db'.header = db.header ∧ db'.size = db.size ∧ db'.offset = (ChunkQueue.copy (bs.map data) offset sz).2.2 ∧
    left.map data = (ChunkQueue.copy (bs.map data) offset sz).2.1 ∧ bs = freed ++ left ∧
    Shape data (.put g i db' mp') lists' (Function.update blocks i left)
  := by
  induction bs generalizing fuel db mp lists blocks offset sz with
  | nil =>
      rw [List.map_nil, List.flatten_nil, List.length_nil] at hsz
      omega
  | cons b bs ih =>
      obtain ⟨m, l, hl⟩ := h.exists_cons hb
      obtain ⟨b', bs', hb', hhead, hm, -⟩ := h.head hl
      obtain ⟨rfl, rfl⟩ : b = b' ∧ bs = bs' := List.cons_eq_cons.mp (hb.symm.trans hb')
      obtain ⟨fuel, rfl⟩ : ∃ n, fuel = n + 1 := Nat.exists_eq_succ_of_ne_zero (Nat.ne_zero_of_lt hfuel)
      have hle : offset ≤ (data b).length := hle
      rw [List.map_cons, List.flatten_cons, List.length_append] at hsz
      have hbsz : ((data b).length : ℤ) - db.offset = ((data b).length - offset : ℕ) := by omega
      simp only [MessagePool.readLoop, hhead, hm, hbsz, Option.bind_eq_bind, Option.bind_some, Nat.cast_inj, gt_iff_lt,
        Int.ofNat_lt]
      rw [List.map_cons, ChunkQueue.copy]
      rcases Nat.lt_trichotomy sz ((data b).length - offset) with hlt | heq | hgt
      · rw [if_pos hlt, if_pos hlt, hoffset, memcpy_eq (by omega)]
        refine ⟨_, _, _, b :: bs, lists, rfl, rfl, rfl, rfl, rfl, rfl, ?_⟩
        rw [← hb, Function.update_eq_self]
        exact h.congr hhead.symm rfl
      · have hshape : Shape data (.put g i { db with offset := 0, head := some m } mp) lists blocks :=
          h.congr hhead.symm rfl
        obtain ⟨b', bs', db', mp', hb', hreturn, hheader, hoffset', hsize, -, hshape⟩ := hshape.returnMessage hl
        obtain ⟨rfl, rfl⟩ : b = b' ∧ bs = bs' := List.cons_eq_cons.mp (hb.symm.trans hb')
        have hnlt : ¬ sz < (data b).length - offset := by omega
        rw [if_neg hnlt, if_neg hnlt, if_pos heq.symm, if_pos heq.symm, hoffset, memcpy_eq (by omega)]
        rw [Option.bind_some, hreturn]
        exact ⟨_, _, _, bs, _, rfl, hheader, hsize, hoffset', rfl, rfl, hshape⟩
      · obtain ⟨b', bs', db₁, mp₁, hb', hreturn, hheader, -, hsize, -, hshape⟩ := h.returnMessage hl
        obtain ⟨rfl, rfl⟩ : b = b' ∧ bs = bs' := List.cons_eq_cons.mp (hb.symm.trans hb')
        have hshape₁ : Shape data (.put g i { db₁ with offset := 0 } mp₁) _ _ := hshape.congr rfl rfl
        have hfuel : bs.length ≤ fuel := Nat.le_of_succ_le_succ hfuel
        have hrest : (sz : ℤ) - ((data b).length - offset : ℕ) = (sz - ((data b).length - offset) : ℕ) := by omega
        obtain ⟨db', mp', freed, left, lists', hread, hheader', hsize', hoffset', hleft, hfreed, hshape'⟩ :=
          ih hshape₁ (Function.update_self i bs blocks) hfuel (show (0 : ℤ) = (0 : ℕ) from rfl) (Nat.zero_le _)
            (show 0 < sz - ((data b).length - offset) by omega) (by omega)
        have hall : (data b).length - offset = ((data b).drop offset).length := List.length_drop.symm
        have hnlt : ¬ sz < (data b).length - offset := by omega
        have hne : (data b).length - offset ≠ sz := by omega
        rw [if_neg hnlt, if_neg hnlt, if_neg hne, if_neg hne, hoffset, memcpy_eq (by omega)]
        rw [List.take_of_length_le (Nat.le_of_eq hall.symm)]
        simp only [Option.bind_some, hreturn, hrest, hread]
        refine ⟨db', mp', b :: freed, left, lists', rfl, hheader'.trans hheader, hsize'.trans hsize, hoffset', hleft,
          ?_, ?_⟩
        · rw [List.cons_append, hfreed]
        · rwa [Function.update_idem] at hshape'

/-! ### Clearing -/

omit [DecidableEq ι] in
theorem Shape.length_blocks {heap : Heap ι β} (h : Shape data heap lists blocks) (i : ι) :
  (lists (some i)).length = (blocks i).length
  := by
  have hlength := congrArg List.length (h.loads i)
  rwa [List.length_map, List.length_map] at hlength

omit [DecidableEq ι] in
/-- A buffer does not hold more blocks than there are messages. -/
theorem Shape.length_le {heap : Heap ι β} (h : Shape data heap lists blocks) (i : ι) :
  (blocks i).length ≤ heap.mp.messages.length
  := by
  have hsub : lists (some i) ⊆ List.range heap.mp.messages.length := by
    intro m hm
    rw [List.mem_range, h.mem]
    use some i
  have hle := ((h.linked.linked (some i)).nodup.subperm hsub).length_le
  rwa [List.length_range, h.length_blocks] at hle

omit [DecidableEq ι] in
theorem Shape.head_eq_none_iff {heap : Heap ι β} (h : Shape data heap lists blocks) (i : ι) :
  (heap.db i).head = none ↔ blocks i = []
  := by
  have hlinked : Linked heap.mp.next (heap.db i).head (lists (some i)) := h.linked.linked (some i)
  rw [← hlinked.eq_nil_iff, ← List.length_eq_zero_iff, h.length_blocks, List.length_eq_zero_iff]

/-- Clearing frees all blocks of a buffer. -/
theorem Shape.clearLoop (h : Shape data (.put g i db mp) lists blocks) (hb : blocks i = bs) {fuel : ℕ}
    (hfuel : bs.length ≤ fuel) :
  ∃ mp' lists', clearLoop fuel db mp = some (mp', bs) ∧
    Shape data (.put g i zero mp') lists' (Function.update blocks i [])
  := by
  induction bs generalizing fuel db mp lists blocks with
  | nil =>
      have hhead := (h.head_eq_none_iff i).mpr hb
      have hlength := h.length_blocks i
      have htail := h.tail i
      rw [hb, List.length_nil, List.length_eq_zero_iff] at hlength
      rw [hlength, Heap.db_put_self] at htail
      rw [Heap.db_put_self] at hhead
      refine ⟨mp, lists, ?_, ?_⟩
      · cases fuel <;> rw [MessagePool.clearLoop, hhead] <;> rfl
      · rw [← hb, Function.update_eq_self]
        exact h.congr hhead.symm htail.symm
  | cons b bs ih =>
      obtain ⟨m, l, hl⟩ := h.exists_cons hb
      obtain ⟨b', bs', db₁, mp₁, hb', hreturn, -, -, -, -, hshape⟩ := h.returnMessage hl
      obtain ⟨-, -, -, hhead, -⟩ := h.head hl
      obtain ⟨rfl, rfl⟩ : b = b' ∧ bs = bs' := List.cons_eq_cons.mp (hb.symm.trans hb')
      obtain ⟨fuel, rfl⟩ : ∃ n, fuel = n + 1 := Nat.exists_eq_succ_of_ne_zero (Nat.ne_zero_of_lt hfuel)
      obtain ⟨mp', lists', hclear, hshape'⟩ :=
        ih hshape (Function.update_self i bs blocks) (Nat.le_of_succ_le_succ hfuel)
      refine ⟨mp', lists', ?_, ?_⟩
      · have hsome : db.head.isSome = true := by
          rw [hhead]
          rfl
        rw [MessagePool.clearLoop, if_pos hsome]
        simp only [hreturn, hclear, Option.bind_eq_bind, Option.bind_some]
        rfl
      · rwa [Function.update_idem] at hshape'

/-! ### Buffers as queues of chunks -/

/-- The numbers of a buffer that holds the blocks `bs` are those of a queue of chunks. -/
structure Queued (data : β → List UInt8) (db : Databuffer) (bs : List β) (q : ChunkQueue UInt8) : Prop where
  chunks : q.chunks = bs.map data
  nonempty : ∀ b ∈ bs, data b ≠ []
  offset : db.offset = q.offset
  offset_lt : bs = [] ∨ q.offset < (q.chunks.headD []).length
  size : db.size = q.size
  size_lt : q.size < 2 ^ 31

variable {db' : Databuffer} {q : ChunkQueue UInt8}

/-- A buffer is empty when it holds no block. -/
theorem Queued.size_eq_zero_iff (h : Queued data db bs q) :
  db.size = 0 ↔ bs = []
  := by
  have hsize := q.size_eq
  rw [h.size, Nat.cast_eq_zero]
  constructor
  · intro hzero
    apply h.offset_lt.resolve_right
    have hle := ChunkQueue.length_headD_le q.chunks
    omega
  · rintro rfl
    rw [h.chunks, List.map_nil, List.flatten_nil, List.length_nil] at hsize
    omega

theorem Queued.zero :
  Queued data zero [] .empty
  where
  chunks := rfl
  nonempty _ hb := absurd hb List.not_mem_nil
  offset := rfl
  offset_lt := .inl rfl
  size := rfl
  size_lt := by decide

/-- A block may be appended as long as the size does not overflow. -/
theorem Queued.push (h : Queued data db bs q) (hb : data b ≠ []) (hoffset : db'.offset = db.offset)
    (hsize : db'.size = LittleEndian.toInt (db.size + (data b).length)) (hfit : q.size + (data b).length < 2 ^ 31) :
  Queued data db' (bs ++ [b]) (q.push (data b))
  where
  chunks := by
    change q.chunks ++ [data b] = _
    rw [h.chunks, List.map_append, List.map_singleton]
  nonempty c hc := by
    rcases List.mem_append.mp hc with hc | hc
    · apply h.nonempty c hc
    · rwa [List.mem_singleton.mp hc]
  offset := hoffset.trans h.offset
  offset_lt := by
    right
    have hle := q.offset_le
    have hlt := h.offset_lt
    change q.offset < ((q.chunks ++ [data b]).headD []).length
    rw [h.chunks] at hle hlt ⊢
    cases bs with
    | nil =>
        have hpos := List.length_pos_of_ne_nil hb
        exact Nat.lt_of_le_of_lt hle hpos
    | cons c bs =>
        apply hlt.resolve_left
        apply List.cons_ne_nil
  size := by
    rw [hsize, h.size, ← Int.natCast_add, LittleEndian.toInt_of_lt hfit]
    rfl
  size_lt := hfit

/-- Reading copies the oldest bytes. -/
theorem Shape.read {heap : Heap ι β} (h : Shape data heap lists blocks) (hq : Queued data (heap.db i) (blocks i) q)
    {sz : ℕ} (hpos : 0 < sz) (hle : sz ≤ q.size) :
  ∃ db' mp' freed left lists',
    read data (heap.db i) heap.mp sz = some ((q.read sz hle).1, db', mp', freed) ∧ blocks i = freed ++ left ∧
    Queued data db' left (q.read sz hle).2 ∧
    Shape data (.put heap.db i db' mp') lists' (Function.update blocks i left)
  := by
  have hsize := q.size_eq
  have hlt := hq.size_lt
  have hoffset := q.offset_le
  rw [← Heap.put_self heap i] at h
  have hshape : Shape data (.put heap.db i { heap.db i with size := (q.size - sz : ℕ) } heap.mp) lists blocks :=
    h.congr rfl rfl
  rw [hq.chunks] at hsize hoffset
  obtain ⟨db', mp', freed, left, lists', hread, -, hsize', hoffset', hleft, hfreed, hshape'⟩ :=
    hshape.readLoop rfl (h.length_le i) hq.offset hoffset hpos (by omega)
  rw [← hq.chunks] at hread hoffset' hleft
  refine ⟨db', mp', freed, left, lists', ?_, hfreed, ?_, hshape'⟩
  · have hsz : (heap.db i).size ≥ sz := by
      rw [hq.size]
      omega
    have hrest : LittleEndian.toInt ((heap.db i).size - sz) = (q.size - sz : ℕ) := by
      rw [hq.size, ← Int.natCast_sub hle]
      apply LittleEndian.toInt_of_lt
      omega
    rw [MessagePool.read, if_pos hsz, hrest]
    apply hread
  · constructor
    · exact hleft.symm
    · intro b hb
      apply hq.nonempty
      rw [hfreed]
      apply List.mem_append_right freed hb
    · apply hoffset'
    · have hne : [] ∉ q.chunks := by
        rw [hq.chunks, List.mem_map]
        rintro ⟨b, hb, hempty⟩
        apply hq.nonempty b hb hempty
      apply (ChunkQueue.copy_lt hne q.offset sz).imp_left
      rw [← hleft, List.map_eq_nil_iff]
      exact fun hnil => hnil
    · apply hsize'
    · change q.size - sz < 2 ^ 31
      omega

/-! ### Runs -/

/-- A call for one of the buffers. -/
inductive Call (ι β : Type) where
  | push (i : ι) (block : β)
  | read (i : ι) (sz : ℤ)
  | clear (i : ι)

/-- The buffers and their pool, which are lost when a call goes wrong or does not end; the bytes that are to be read of
each buffer; what each read has copied and what it was to copy; the blocks that have been pushed to each buffer and
that it has freed. -/
structure World (ι β : Type) where
  heap : Option (Heap ι β)
  fifo : ι → List UInt8
  reads : List (List UInt8 × List UInt8)
  pushed : ι → List β
  freed : ι → List β

/-- What a call does.  Only blocks whose size is a positive `int` are pushed, and not more than `size` bytes read. -/
def World.step (data : β → List UInt8) (w : World ι β) (call : Call ι β) : Option (World ι β) :=
  w.heap.bind fun heap =>
    match call with
    | .push i block =>
        if data block ≠ [] ∧ (data block).length < 2 ^ 31 then
          match MessagePool.push data (heap.db i) heap.mp block with
          | none => some { w with heap := none }
          | some (db, mp) => some { w with
              heap := some (.put heap.db i db mp)
              fifo := Function.update w.fifo i (w.fifo i ++ data block)
              pushed := Function.update w.pushed i (w.pushed i ++ [block]) }
        else none
    | .read i sz =>
        if 0 < sz ∧ sz ≤ (heap.db i).size then
          match MessagePool.read data (heap.db i) heap.mp sz with
          | none => some { w with heap := none }
          | some (buffer, db, mp, freed) => some { w with
              heap := some (.put heap.db i db mp)
              fifo := Function.update w.fifo i ((w.fifo i).drop sz.toNat)
              reads := w.reads ++ [(buffer, (w.fifo i).take sz.toNat)]
              freed := Function.update w.freed i (w.freed i ++ freed) }
        else none
    | .clear i =>
        match MessagePool.clear (heap.db i) heap.mp with
        | none => some { w with heap := none }
        | some (db, mp, freed) => some { w with
            heap := some (.put heap.db i db mp)
            fifo := Function.update w.fifo i []
            freed := Function.update w.freed i (w.freed i ++ freed) }

/-- Buffers and a pool after `memset`. -/
def World.initial (ι β : Type) : World ι β where
  heap := some ⟨fun _ => zero, ⟨[], none⟩⟩
  fifo _ := []
  reads := []
  pushed _ := []
  freed _ := []

/-- The runs of any number of buffers with one pool. -/
def machine (ι : Type) [DecidableEq ι] (data : β → List UInt8) : Machine (World ι β) (Call ι β) where
  init w := w = .initial ι β
  step := World.step data

/-- The buffers are queues of bytes: what has been copied is what was to be read, `size` is what is left to be read.
Each message of the pool is in one of the lists, which hold the blocks that have been pushed and not been freed. -/
structure Fifo (data : β → List UInt8) (w : World ι β) (heap : Heap ι β) (lists : Option ι → List ℕ)
    (blocks : ι → List β) : Prop where
  heap_eq : w.heap = some heap
  reads : ∀ r ∈ w.reads, r.1 = r.2
  size : ∀ i, (heap.db i).size = (w.fifo i).length
  head : ∀ i, (heap.db i).head = none ↔ (heap.db i).size = 0
  linked : LinkedLists heap.mp.next heap.root lists
  mem : ∀ m < heap.mp.messages.length, ∃! k, m ∈ lists k
  loads : ∀ i, (lists (some i)).map heap.mp.load = (blocks i).map (loaded data)
  freed : ∀ i, w.pushed i = w.freed i ++ blocks i

/-- A block fits into a buffer when it then holds less than 2^31 bytes. -/
def Fits (data : β → List UInt8) (w : World ι β) : Call ι β → Prop
  | .push i block => (w.fifo i).length + (data block).length < 2 ^ 31
  | _ => True

/-- The invariant of the runs. -/
structure Sound (data : β → List UInt8) (w : World ι β) (heap : Heap ι β) (lists : Option ι → List ℕ)
    (blocks : ι → List β) (q : ι → ChunkQueue UInt8) : Prop where
  heap_eq : w.heap = some heap
  shape : Shape data heap lists blocks
  queued : ∀ i, Queued data (heap.db i) (blocks i) (q i)
  contents : ∀ i, (q i).contents = w.fifo i
  reads : ∀ r ∈ w.reads, r.1 = r.2
  freed : ∀ i, w.pushed i = w.freed i ++ blocks i

omit [DecidableEq ι] in
theorem Sound.size {w : World ι β} {heap : Heap ι β} {q : ι → ChunkQueue UInt8}
    (h : Sound data w heap lists blocks q) (i : ι) :
  (q i).size = (w.fifo i).length
  := by rw [← h.contents i, ChunkQueue.length_contents]

omit [DecidableEq ι] in
theorem Sound.fifo {w : World ι β} {heap : Heap ι β} {q : ι → ChunkQueue UInt8}
    (h : Sound data w heap lists blocks q) :
  Fifo data w heap lists blocks
  where
  heap_eq := h.heap_eq
  reads := h.reads
  size i := by rw [(h.queued i).size, h.size]
  head i := by rw [h.shape.head_eq_none_iff, (h.queued i).size_eq_zero_iff]
  linked := h.shape.linked
  mem m hm := by
    obtain ⟨k, hk⟩ := (h.shape.mem m).mp hm
    use k, hk
    intro k' hk'
    apply h.shape.linked.disjoint hk' hk
  loads := h.shape.loads
  freed := h.freed

omit [DecidableEq ι] in
theorem sound_initial :
  Sound data (.initial ι β) ⟨fun _ => zero, ⟨[], none⟩⟩ (fun _ => []) (fun _ => []) fun _ => .empty
  where
  heap_eq := rfl
  shape := {
    linked := {
      linked := by
        intro k
        cases k <;> rfl
      disjoint := by rintro k k' a ⟨⟩ }
    mem := by
      intro m
      apply iff_of_false (Nat.not_lt_zero m)
      rintro ⟨k, ⟨⟩⟩
    loads := fun _ => rfl
    tail := fun _ => rfl }
  queued _ := .zero
  contents _ := rfl
  reads := by rintro r ⟨⟩
  freed _ := rfl

/-- One buffer is changed. -/
theorem Sound.put {w w' : World ι β} {heap : Heap ι β} {q : ι → ChunkQueue UInt8} {lists' : Option ι → List ℕ}
    {q' : ChunkQueue UInt8} {db' : Databuffer} (h : Sound data w heap lists blocks q)
    (hheap : w'.heap = some (.put heap.db i db' mp'))
    (hshape : Shape data (.put heap.db i db' mp') lists' (Function.update blocks i bs)) (hq : Queued data db' bs q')
    (hfifo : w'.fifo = Function.update w.fifo i q'.contents) (hreads : ∀ r ∈ w'.reads, r.1 = r.2)
    (hfreed : w'.pushed i = w'.freed i ++ bs) (hpushed : ∀ j ≠ i, w'.pushed j = w.pushed j)
    (hfreed' : ∀ j ≠ i, w'.freed j = w.freed j) :
  Sound data w' (.put heap.db i db' mp') lists' (Function.update blocks i bs) (Function.update q i q')
  where
  heap_eq := hheap
  shape := hshape
  queued j := by
    rcases eq_or_ne j i with rfl | hj
    · rw [Heap.db_put_self, Function.update_self, Function.update_self]
      apply hq
    · rw [Heap.db_put_of_ne hj, Function.update_of_ne hj, Function.update_of_ne hj]
      apply h.queued
  contents j := by
    rw [hfifo]
    rcases eq_or_ne j i with rfl | hj
    · rw [Function.update_self, Function.update_self]
    · rw [Function.update_of_ne hj, Function.update_of_ne hj]
      apply h.contents
  reads := hreads
  freed j := by
    rcases eq_or_ne j i with rfl | hj
    · rw [Function.update_self, hfreed]
    · rw [Function.update_of_ne hj, hpushed j hj, hfreed' j hj]
      apply h.freed

/-- A block that does not fit leaves a negative size. -/
theorem Sound.not_fifo_push {w w' : World ι β} {heap : Heap ι β} {q : ι → ChunkQueue UInt8} {i : ι} {block : β}
    (h : Sound data w heap lists blocks q) {db' : Databuffer} {mp' : Pool β}
    (hsize : db'.size = LittleEndian.toInt ((heap.db i).size + (data block).length))
    (hlt : (data block).length < 2 ^ 31) (hfit : 2 ^ 31 ≤ (w.fifo i).length + (data block).length)
    (hheap : w'.heap = some (.put heap.db i db' mp')) (heap' : Heap ι β) (lists' : Option ι → List ℕ)
    (blocks' : ι → List β) :
  ¬ Fifo data w' heap' lists' blocks'
  := by
  intro hfifo
  have hneg : (heap.db i).size + (data block).length = ((w.fifo i).length + (data block).length : ℕ) := by
    rw [(h.queued i).size, h.size, Int.natCast_add]
  have hsize' := hfifo.size i
  obtain rfl := Option.some.inj (hheap.symm.trans hfifo.heap_eq)
  have hbound := (h.queued i).size_lt
  rw [h.size] at hbound
  have hoverflow := LittleEndian.toInt_of_ge hfit (by omega)
  rw [Heap.db_put_self, hsize, hneg] at hsize'
  omega

/-- A push keeps the invariant when its block fits, and else leaves a wrong size. -/
theorem Sound.push {w w' : World ι β} {heap : Heap ι β} {q : ι → ChunkQueue UInt8} {i : ι} {block : β}
    (h : Sound data w heap lists blocks q) (hstep : w.step data (.push i block) = some w') :
  (∃ heap' lists' blocks' q', Sound data w' heap' lists' blocks' q') ∧ Fits data w (.push i block) ∨
    (∀ heap' lists' blocks', ¬ Fifo data w' heap' lists' blocks') ∧ ¬ Fits data w (.push i block)
  := by
  rw [World.step, h.heap_eq, Option.bind_some] at hstep
  dsimp only at hstep
  split at hstep
  · next hblock =>
      obtain ⟨hne, hlt⟩ := hblock
      have hshape := h.shape
      rw [← Heap.put_self heap i] at hshape
      obtain ⟨db', mp', lists', hpush, -, hoffset, hsize, hshape'⟩ := hshape.push block
      rw [hpush] at hstep
      obtain rfl := Option.some.inj hstep
      by_cases hfit : (w.fifo i).length + (data block).length < 2 ^ 31
      · left
        constructor
        · have hq := (h.queued i).push hne hoffset hsize (by rwa [h.size])
          refine ⟨_, _, _, _, h.put rfl hshape' hq ?_ h.reads ?_ ?_ ?_⟩
          · rw [ChunkQueue.contents_push, h.contents]
          · change Function.update w.pushed i _ i = _
            rw [Function.update_self, h.freed, List.append_assoc]
          · exact fun j hj => Function.update_of_ne hj _ _
          · exact fun _ _ => rfl
        · exact hfit
      · right
        constructor
        · apply h.not_fifo_push hsize hlt (Nat.le_of_not_lt hfit) rfl
        · exact hfit
  · cases hstep

theorem Sound.read {w w' : World ι β} {heap : Heap ι β} {q : ι → ChunkQueue UInt8} {i : ι} {sz : ℤ}
    (h : Sound data w heap lists blocks q) (hstep : w.step data (.read i sz) = some w') :
  ∃ heap' lists' blocks' q', Sound data w' heap' lists' blocks' q'
  := by
  rw [World.step, h.heap_eq, Option.bind_some] at hstep
  dsimp only at hstep
  split at hstep
  · next hsz =>
      obtain ⟨hpos, hle⟩ := hsz
      obtain ⟨n, rfl⟩ := Int.eq_ofNat_of_zero_le (Int.le_of_lt hpos)
      rw [(h.queued i).size] at hle
      have hle : n ≤ (q i).size := Int.ofNat_le.mp hle
      obtain ⟨db', mp', freed, left, lists', hread, hfreed, hq, hshape⟩ :=
        h.shape.read (h.queued i) (Int.ofNat_lt.mp hpos) hle
      rw [hread] at hstep
      obtain rfl := Option.some.inj hstep
      refine ⟨_, _, _, _, h.put rfl hshape hq ?_ ?_ ?_ ?_ ?_⟩
      · rw [ChunkQueue.contents_read, h.contents]
        rfl
      · intro r hr
        rcases List.mem_append.mp hr with hr | hr
        · apply h.reads r hr
        · rw [List.mem_singleton.mp hr, ChunkQueue.read_fst, h.contents]
          rfl
      · change w.pushed i = Function.update w.freed i _ i ++ left
        rw [Function.update_self, h.freed, hfreed, List.append_assoc]
      · exact fun _ _ => rfl
      · exact fun j hj => Function.update_of_ne hj _ _
  · cases hstep

theorem Sound.clear {w w' : World ι β} {heap : Heap ι β} {q : ι → ChunkQueue UInt8} {i : ι}
    (h : Sound data w heap lists blocks q) (hstep : w.step data (.clear i) = some w') :
  ∃ heap' lists' blocks' q', Sound data w' heap' lists' blocks' q'
  := by
  have hshape := h.shape
  rw [← Heap.put_self heap i] at hshape
  obtain ⟨mp', lists', hclear, hshape'⟩ := hshape.clearLoop rfl (h.shape.length_le i)
  have hclear : MessagePool.clear (heap.db i) heap.mp = some (zero, mp', blocks i) := by
    rw [MessagePool.clear, hclear]
    rfl
  rw [World.step, h.heap_eq, Option.bind_some] at hstep
  dsimp only at hstep
  rw [hclear] at hstep
  obtain rfl := Option.some.inj hstep
  refine ⟨_, _, _, _, h.put rfl hshape' .zero rfl h.reads ?_ ?_ ?_⟩
  · change w.pushed i = Function.update w.freed i _ i ++ []
    rw [Function.update_self, h.freed, List.append_nil]
  · exact fun _ _ => rfl
  · exact fun j hj => Function.update_of_ne hj _ _

/-- A call keeps the invariant when its block fits, and else leaves a wrong size. -/
theorem Sound.step {w w' : World ι β} {heap : Heap ι β} {q : ι → ChunkQueue UInt8} {call : Call ι β}
    (h : Sound data w heap lists blocks q) (hstep : w.step data call = some w') :
  (∃ heap' lists' blocks' q', Sound data w' heap' lists' blocks' q') ∧ Fits data w call ∨
    (∀ heap' lists' blocks', ¬ Fifo data w' heap' lists' blocks') ∧ ¬ Fits data w call
  := by
  cases call with
  | push i block => apply h.push hstep
  | read i sz => exact .inl ⟨h.read hstep, trivial⟩
  | clear i => exact .inl ⟨h.clear hstep, trivial⟩

/-- A block of a size that is allowed can be pushed. -/
theorem Sound.exists_step_push {w : World ι β} {heap : Heap ι β} {q : ι → ChunkQueue UInt8}
    (h : Sound data w heap lists blocks q) (i : ι) {block : β} (hne : data block ≠ [])
    (hlt : (data block).length < 2 ^ 31) :
  ∃ w', w.step data (.push i block) = some w' ∧ w'.fifo i = w.fifo i ++ data block
  := by
  have hshape := h.shape
  rw [← Heap.put_self heap i] at hshape
  obtain ⟨db', mp', lists', hpush, -⟩ := hshape.push block
  use { w with
    heap := some (.put heap.db i db' mp')
    fifo := Function.update w.fifo i (w.fifo i ++ data block)
    pushed := Function.update w.pushed i (w.pushed i ++ [block]) }
  constructor
  · rw [World.step, h.heap_eq, Option.bind_some]
    dsimp only
    rw [if_pos ⟨hne, hlt⟩, hpush]
  · apply Function.update_self

/-- A block that fits once and not twice. -/
theorem push_twice (i : ι) {block : β} (hne : data block ≠ []) (hlt : (data block).length < 2 ^ 31)
    (hge : 2 ^ 31 ≤ (data block).length + (data block).length) :
  ¬ (machine ι data).Always (fun w => ∃ heap lists blocks, Fifo data w heap lists blocks) (.initial ι β)
    [.push i block, .push i block]
  := by
  intro h
  obtain ⟨w₁, hstep₁, hfifo₁⟩ := sound_initial.exists_step_push i hne hlt
  obtain ⟨heap₁, lists₁, blocks₁, q₁, hsound₁⟩ : ∃ heap lists blocks q, Sound data w₁ heap lists blocks q := by
    rcases sound_initial.step hstep₁ with ⟨hsound, -⟩ | ⟨-, hfits⟩
    · apply hsound
    · exfalso
      apply hfits
      change 0 + (data block).length < 2 ^ 31
      omega
  obtain ⟨w₂, hstep₂, -⟩ := hsound₁.exists_step_push i hne hlt
  rcases hsound₁.step hstep₂ with ⟨-, hfits⟩ | ⟨hwrong, -⟩
  · have hsum : (w₁.fifo i).length + (data block).length < 2 ^ 31 := hfits
    rw [hfifo₁, List.length_append] at hsum
    omega
  · obtain ⟨heap₂, lists₂, blocks₂, hfifo₂⟩ := ((h.2 w₁ hstep₁).2 w₂ hstep₂).here
    apply hwrong heap₂ lists₂ blocks₂ hfifo₂

/-- The invariant holds of some lists, blocks and queues. -/
def Kept (data : β → List UInt8) (w : World ι β) : Prop :=
  ∃ heap lists blocks q, Sound data w heap lists blocks q

omit [DecidableEq ι] in
theorem Kept.fifo {w : World ι β} (h : Kept data w) :
  ∃ heap lists blocks, Fifo data w heap lists blocks
  := by
  obtain ⟨heap, lists, blocks, q, hsound⟩ := h
  exact ⟨heap, lists, blocks, hsound.fifo⟩

/-- The buffers of the gate are queues of bytes in all states of a run exactly when each block fits into its buffer. -/
theorem always_fifo_iff (data : β → List UInt8) (calls : List (Call ι β)) :
  (machine ι data).Always (fun w => ∃ heap lists blocks, Fifo data w heap lists blocks) (.initial ι β) calls ↔
    (machine ι data).Guarded (Fits data) (.initial ι β) calls
  := by
  have hinit : Kept data (.initial ι β) := ⟨_, _, _, _, sound_initial⟩
  rw [← Machine.always_iff_guarded (P := Kept data) _ hinit]
  · constructor
    · apply Machine.Always.strengthen _ hinit
      rintro w call w' ⟨heap, lists, blocks, q, h⟩ hstep ⟨heap', lists', blocks', hfifo'⟩
      rcases h.step hstep with ⟨hsound, -⟩ | ⟨hwrong, -⟩
      · apply hsound
      · exact absurd hfifo' (hwrong heap' lists' blocks')
    · apply Machine.Always.mono fun _ => Kept.fifo
  · rintro w call w' ⟨heap, lists, blocks, q, h⟩ hstep
    rcases h.step hstep with ⟨hsound, hfits⟩ | ⟨hwrong, hfits⟩
    · apply iff_of_true hsound hfits
    · apply iff_of_false _ hfits
      intro hkept
      obtain ⟨heap', lists', blocks', hfifo'⟩ := hkept.fifo
      apply hwrong heap' lists' blocks' hfifo'

/-- The size of a buffer that gets two blocks of 2^30 bytes becomes negative. -/
theorem push_overflows :
  ¬ (machine Unit fun n : ℕ => List.replicate n (0 : UInt8)).Always
    (fun w => ∃ heap lists blocks, Fifo (fun n => List.replicate n 0) w heap lists blocks) (.initial Unit ℕ)
    [.push () (2 ^ 30), .push () (2 ^ 30)]
  := by
  apply push_twice
  · rw [ne_eq, List.replicate_eq_nil_iff]
    decide
  · rw [List.length_replicate]
    decide
  · rw [List.length_replicate]
    decide

end MessagePool

end Skynet
