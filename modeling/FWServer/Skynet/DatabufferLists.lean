import FWServer.Skynet.Databuffer

/-!
# The lists of the buffers

Any number of buffers take their messages from one pool.  `Shape` says that each message of the pool is in the list of
one buffer or in the free list, and which blocks the messages in the lists hold.  A message that is taken from the
pool goes to the end of the list of a buffer, and one that is given back goes from there to the front of the free list.
-/

namespace Skynet

namespace MessagePool

variable {ι β : Type}

/-! ### Messages -/

/-- The message that comes after another. -/
def Pool.next (mp : Pool β) (m : ℕ) : Option ℕ :=
  mp.messages[m]?.bind Message.next

/-- What a message holds. -/
def Pool.load (mp : Pool β) (m : ℕ) : Option (Option β × ℤ) :=
  mp.messages[m]?.map fun message => (message.buffer, message.size)

variable {data : β → List UInt8} {mp mp' : Pool β} {m n : ℕ} {message : Message β}

theorem Pool.getElem?_of_load {buffer : Option β} {size : ℤ} (h : mp.load m = some (buffer, size)) :
  mp.messages[m]? = some ⟨buffer, size, mp.next m⟩
  := by
  rw [Pool.load, Option.map_eq_some_iff] at h
  obtain ⟨message, hm, h⟩ := h
  rw [Pool.next, hm]
  cases h
  rfl

@[simp]
theorem Pool.length_write (m : ℕ) (message : Message β) :
  (mp.write m message).messages.length = mp.messages.length
  := List.length_set

theorem Pool.next_write (hm : m < mp.messages.length) (message : Message β) :
  (mp.write m message).next = Function.update mp.next m message.next
  := by
  funext n
  rcases eq_or_ne n m with rfl | hn
  · rw [Function.update_self, Pool.next, Pool.write, List.getElem?_set_self hm]
    rfl
  · rw [Function.update_of_ne hn, Pool.next, Pool.write, List.getElem?_set_ne hn.symm]
    rfl

theorem Pool.load_write_self (hm : m < mp.messages.length) (message : Message β) :
  (mp.write m message).load m = some (message.buffer, message.size)
  := by
  rw [Pool.load, Pool.write, List.getElem?_set_self hm]
  rfl

theorem Pool.load_write_of_ne (hn : n ≠ m) (message : Message β) :
  (mp.write m message).load n = mp.load n
  := by rw [Pool.load, Pool.load, Pool.write, List.getElem?_set_ne hn.symm]

/-! ### Lists of messages -/

/-- The buffers and the pool that they share. -/
structure Heap (ι β : Type) where
  db : ι → Databuffer
  mp : Pool β

/-- Where the lists start: `none` stands for the free list. -/
def Heap.root (heap : Heap ι β) : Option ι → Option ℕ
  | none => heap.mp.freelist
  | some i => (heap.db i).head

/-- A message that holds a block. -/
def loaded (data : β → List UInt8) (block : β) : Option (Option β × ℤ) :=
  some (some block, (data block).length)

/-- Each message of the pool is in one of the lists, and those of a buffer hold its blocks in order. -/
structure Shape (data : β → List UInt8) (heap : Heap ι β) (lists : Option ι → List ℕ) (blocks : ι → List β) : Prop
    where
  linked : LinkedLists heap.mp.next heap.root lists
  mem : ∀ m, m < heap.mp.messages.length ↔ ∃ k, m ∈ lists k
  loads : ∀ i, (lists (some i)).map heap.mp.load = (blocks i).map (loaded data)
  tail : ∀ i, (heap.db i).tail = (lists (some i)).getLast?

variable [DecidableEq ι] {g : ι → Databuffer} {db : Databuffer} {lists : Option ι → List ℕ} {blocks : ι → List β}
  {i : ι} {l : List ℕ}

/-- The pool and a buffer are replaced. -/
def Heap.put (g : ι → Databuffer) (i : ι) (db : Databuffer) (mp : Pool β) : Heap ι β where
  db := Function.update g i db
  mp := mp

@[simp]
theorem Heap.put_self (heap : Heap ι β) (i : ι) :
  Heap.put heap.db i (heap.db i) heap.mp = heap
  := by rw [Heap.put, Function.update_eq_self]

theorem Heap.db_put_self (g : ι → Databuffer) (i : ι) (db : Databuffer) (mp : Pool β) :
  (Heap.put g i db mp).db i = db
  := by
  change Function.update g i db i = db
  apply Function.update_self

theorem Heap.db_put_of_ne {j : ι} (hj : j ≠ i) (g : ι → Databuffer) (db : Databuffer) (mp : Pool β) :
  (Heap.put g i db mp).db j = g j
  := by
  change Function.update g i db j = g j
  apply Function.update_of_ne hj

theorem Heap.root_put_self (g : ι → Databuffer) (i : ι) (db : Databuffer) (mp : Pool β) :
  (Heap.put g i db mp).root (some i) = db.head
  := congrArg Databuffer.head (Heap.db_put_self g i db mp)

/-- Only the starts of the free list and of one list change. -/
theorem Heap.root_put (g : ι → Databuffer) (i : ι) (db db' : Databuffer) (mp mp' : Pool β) :
  (Heap.put g i db' mp').root =
    Function.update (Function.update (Heap.put g i db mp).root (some i) db'.head) none mp'.freelist
  := by
  funext k
  cases k with
  | none =>
      rw [Function.update_self]
      rfl
  | some j =>
      rw [Function.update_of_ne (Option.some_ne_none j)]
      rcases eq_or_ne j i with rfl | hj
      · rw [Function.update_self, Heap.root_put_self]
      · rw [Function.update_of_ne fun h => hj (Option.some.inj h), Heap.root, Heap.root, Heap.db_put_of_ne hj,
          Heap.db_put_of_ne hj]

/-- When the free list starts where it did, only one start changes. -/
theorem Heap.root_put_of_freelist (g : ι → Databuffer) (i : ι) (db db' : Databuffer) (mp : Pool β) {mp' : Pool β}
    (h : mp'.freelist = mp.freelist) :
  (Heap.put g i db' mp').root = Function.update (Heap.put g i db mp).root (some i) db'.head
  := by
  have hfree : Function.update (Heap.put g i db mp).root (some i) db'.head none = mp.freelist :=
    Function.update_of_ne (Option.some_ne_none i).symm _ _
  rw [Heap.root_put g i db db' mp mp', h, ← hfree, Function.update_eq_self]

/-- Of a buffer only the ends of its list matter. -/
theorem Shape.congr {db' : Databuffer} (h : Shape data (.put g i db mp) lists blocks) (hhead : db'.head = db.head)
    (htail : db'.tail = db.tail) :
  Shape data (.put g i db' mp) lists blocks
  where
  linked := by
    have hroot : (Heap.put g i db' mp).root = (Heap.put g i db mp).root := by
      rw [Heap.root_put g i db db' mp mp, hhead, ← Heap.root_put]
    rw [hroot]
    apply h.linked
  mem := h.mem
  loads := h.loads
  tail j := by
    rw [← h.tail j]
    rcases eq_or_ne j i with rfl | hj
    · rw [Heap.db_put_self, Heap.db_put_self, htail]
    · rw [Heap.db_put_of_ne hj, Heap.db_put_of_ne hj]

/-! ### Giving back a message -/

/-- The first message of a list and the block that it holds. -/
theorem Shape.head (h : Shape data (.put g i db mp) lists blocks) (hl : lists (some i) = m :: l) :
  ∃ b bs, blocks i = b :: bs ∧ db.head = some m ∧
    mp.messages[m]? = some ⟨some b, (data b).length, mp.next m⟩ ∧ l.map mp.load = bs.map (loaded data)
  := by
  have hloads := h.loads i
  have hlinked := h.linked.linked (some i)
  rw [hl] at hloads hlinked
  have hhead : db.head = some m := by
    have hroot := hlinked.1
    rwa [Heap.root_put_self] at hroot
  cases hb : blocks i with
  | nil =>
      rw [hb] at hloads
      cases hloads
  | cons b bs =>
      rw [hb, List.map_cons, List.map_cons, List.cons.injEq] at hloads
      use b, bs, rfl, hhead, Pool.getElem?_of_load hloads.1, hloads.2

/-- A message is put in front of the free list. -/
def Pool.give (mp : Pool β) (m : ℕ) : Pool β :=
  { mp.write m ⟨none, 0, mp.freelist⟩ with freelist := some m }

/-- The ends of a list without its first message. -/
theorem Shape.advance (h : Shape data (.put g i db mp) lists blocks) (hl : lists (some i) = m :: l) :
  ∃ db', advance db m (mp.next m) = some db' ∧ db'.header = db.header ∧ db'.offset = db.offset ∧ db'.size = db.size ∧
    db'.head = mp.next m ∧ db'.tail = l.getLast?
  := by
  have htail := h.tail i
  have hlinked := (h.linked.linked (some i))
  rw [hl] at htail hlinked
  rw [Heap.db_put_self] at htail
  cases l with
  | nil =>
      have hnext : mp.next m = none := hlinked.2
      rw [hnext]
      exact ⟨_, if_pos htail, rfl, rfl, rfl, rfl, rfl⟩
  | cons n l =>
      have hnext : mp.next m = some n := hlinked.2.1
      rw [hnext]
      use { db with head := some n }, rfl, rfl, rfl, rfl, rfl
      rw [htail, List.getLast?_cons_cons]

/-- The first message of a list is moved to the front of the free list. -/
theorem Shape.give {db' : Databuffer} (h : Shape data (.put g i db mp) lists blocks) (hl : lists (some i) = m :: l)
    (hlt : m < mp.messages.length) (hbs : l.map mp.load = bs.map (loaded data)) (hhead : db'.head = mp.next m)
    (htail : db'.tail = l.getLast?) :
  Shape data (.put g i db' (mp.give m)) (Function.update (Function.update lists (some i) l) none (m :: lists none))
    (Function.update blocks i bs)
  := by
  have hnotMem := h.linked.notMem_tail hl
  constructor
  · have hmoved := (h.linked.tail hl).push hnotMem none
    rw [Function.update_of_ne (Option.some_ne_none i).symm,
      Function.update_of_ne (Option.some_ne_none i).symm] at hmoved
    rw [Heap.root_put g i db db' mp (mp.give m), hhead]
    have hnext : (mp.give m).next = Function.update mp.next m mp.freelist := Pool.next_write hlt _
    rw [Heap.put, hnext]
    apply hmoved
  · intro n
    have hlength : (mp.give m).messages.length = mp.messages.length := Pool.length_write _ _
    change n < (mp.give m).messages.length ↔ _
    rw [hlength, show n < mp.messages.length ↔ _ from h.mem n, LinkedLists.exists_mem_tail hl]
    symm
    apply LinkedLists.exists_mem_update (P := fun n => n = m)
    intro n
    rw [Function.update_of_ne (Option.some_ne_none i).symm, List.mem_cons]
  · intro j
    have hload : ∀ n ≠ m, (mp.give m).load n = mp.load n := fun n hn => Pool.load_write_of_ne hn _
    rw [Function.update_of_ne (Option.some_ne_none j)]
    have hnot := hnotMem (some j)
    have hblocks : (Function.update lists (some i) l (some j)).map mp.load
        = (Function.update blocks i bs j).map (loaded data) := by
      rcases eq_or_ne j i with rfl | hj
      · rw [Function.update_self, Function.update_self, hbs]
      · rw [Function.update_of_ne fun heq => hj (Option.some.inj heq), Function.update_of_ne hj]
        apply h.loads
    rw [← hblocks]
    apply List.map_congr_left
    intro n hn
    apply hload
    rintro rfl
    apply hnot hn
  · intro j
    rw [Function.update_of_ne (Option.some_ne_none j)]
    rcases eq_or_ne j i with rfl | hj
    · rw [Heap.db_put_self, Function.update_self, htail]
    · rw [Heap.db_put_of_ne hj, Function.update_of_ne fun heq => hj (Option.some.inj heq), ← h.tail j,
        Heap.db_put_of_ne hj]

/-- `_return_message` frees the first block of a buffer and gives its message back. -/
theorem Shape.returnMessage (h : Shape data (.put g i db mp) lists blocks) (hl : lists (some i) = m :: l) :
  ∃ b bs db' mp', blocks i = b :: bs ∧ returnMessage db mp = some (db', mp', [b]) ∧
    db'.header = db.header ∧ db'.offset = db.offset ∧ db'.size = db.size ∧
    mp'.messages.length = mp.messages.length ∧
    Shape data (.put g i db' mp') (Function.update (Function.update lists (some i) l) none (m :: lists none))
      (Function.update blocks i bs)
  := by
  obtain ⟨b, bs, hb, hhead, hm, hbs⟩ := h.head hl
  have hlt : m < mp.messages.length := (List.getElem?_eq_some_iff.mp hm).1
  obtain ⟨db', hadvance, hheader, hoffset, hsize, hhead', htail'⟩ := h.advance hl
  have hreturn : MessagePool.returnMessage db mp = some (db', mp.give m, [b]) := by
    simp only [MessagePool.returnMessage, hhead, hm, hadvance, Option.bind_eq_bind, Option.bind_some]
    rfl
  refine ⟨b, bs, db', mp.give m, hb, hreturn, hheader, hoffset, hsize, Pool.length_write _ _, ?_⟩
  apply h.give hl hlt hbs hhead' htail'

/-! ### Taking a message -/

/-- The message `m` has been taken from the pool; the others are in the lists. -/
structure Loose (data : β → List UInt8) (heap : Heap ι β) (lists : Option ι → List ℕ) (blocks : ι → List β) (m : ℕ) :
    Prop where
  linked : LinkedLists heap.mp.next heap.root lists
  mem : ∀ n, n < heap.mp.messages.length ↔ n = m ∨ ∃ k, n ∈ lists k
  notMem : ∀ k, m ∉ lists k
  loads : ∀ i, (lists (some i)).map heap.mp.load = (blocks i).map (loaded data)
  tail : ∀ i, (heap.db i).tail = (lists (some i)).getLast?

theorem length_chunk (m : ℕ) :
  (chunk β m).length = MESSAGEPOOL
  := by rw [chunk, List.length_map, List.length_range]

/-- A chunk has been allocated, whose first message is taken. -/
def Pool.grown (mp : Pool β) : Pool β :=
  ⟨mp.messages ++ chunk β mp.messages.length, some (mp.messages.length + 1)⟩

/-- The links of a new chunk. -/
theorem Pool.next_chunk (mp : Pool β) {j : ℕ} (hj : j < MESSAGEPOOL) :
  mp.grown.next (mp.messages.length + j) = if j + 1 < MESSAGEPOOL then some (mp.messages.length + j + 1) else none
  := by
  rw [grown, next, List.getElem?_append_right (Nat.le_add_right _ _), Nat.add_sub_cancel_left, chunk,
    List.getElem?_map, List.getElem?_range hj]
  rfl

theorem Pool.next_grown (hm : m < mp.messages.length) :
  mp.grown.next m = mp.next m
  := by rw [grown, next, next, List.getElem?_append_left hm]

theorem Pool.load_grown (hm : m < mp.messages.length) :
  mp.grown.load m = mp.load m
  := by rw [grown, load, load, List.getElem?_append_left hm]

/-- The root of the free list when the pool is replaced. -/
theorem Heap.root_pool (db : ι → Databuffer) (mp mp' : Pool β) :
  (Heap.mk db mp').root = Function.update (Heap.mk db mp).root none mp'.freelist
  := by
  funext k
  cases k with
  | none =>
      rw [Function.update_self]
      rfl
  | some j =>
      rw [Function.update_of_ne (Option.some_ne_none j)]
      rfl

/-- A message is taken from the free list. -/
theorem Shape.take_free {heap : Heap ι β} (h : Shape data heap lists blocks) (hl : lists none = m :: l) :
  take heap.mp = some (m, { heap.mp with freelist := heap.mp.next m }) ∧
    Loose data { heap with mp := { heap.mp with freelist := heap.mp.next m } } (Function.update lists none l) blocks m
  := by
  have hlinked := h.linked.linked none
  rw [hl] at hlinked
  have hfree : heap.mp.freelist = some m := hlinked.1
  have hlt : m < heap.mp.messages.length := by
    rw [h.mem]
    use none
    rw [hl]
    apply List.mem_cons_self
  constructor
  · have hnext : heap.mp.next m = (heap.mp.messages[m]).next := by
      rw [Pool.next, List.getElem?_eq_getElem hlt, Option.bind_some]
    simp only [take, hfree, List.getElem?_eq_getElem hlt, hnext, Option.bind_eq_bind, Option.bind_some]
    rfl
  · constructor
    · rw [Heap.root_pool heap.db heap.mp]
      apply h.linked.tail hl
    · intro n
      rw [← LinkedLists.exists_mem_tail hl]
      apply h.mem
    · apply h.linked.notMem_tail hl
    · intro i
      rw [Function.update_of_ne (Option.some_ne_none i)]
      apply h.loads
    · intro i
      rw [Function.update_of_ne (Option.some_ne_none i)]
      apply h.tail

/-- A chunk is allocated when the free list is empty; its first message is taken. -/
theorem Shape.take_chunk {heap : Heap ι β} (h : Shape data heap lists blocks) (hl : lists none = []) :
  take heap.mp = some (heap.mp.messages.length, heap.mp.grown) ∧
    Loose data { heap with mp := heap.mp.grown }
      (Function.update lists none (List.range' (heap.mp.messages.length + 1) (MESSAGEPOOL - 1))) blocks
      heap.mp.messages.length
  := by
  have hfree : heap.mp.freelist = none := by
    have hlinked := h.linked.linked none
    rw [hl] at hlinked
    apply hlinked
  have hlt : ∀ {n k}, n ∈ lists k → n < heap.mp.messages.length := by
    intro n k hn
    rw [h.mem]
    use k
  constructor
  · rw [take, hfree]
    rfl
  · constructor
    · rw [Heap.root_pool heap.db heap.mp]
      apply h.linked.replace
      · apply Linked.range'
        · intro j hj
          have hlast : j + 1 + 1 < MESSAGEPOOL := by
            rw [MESSAGEPOOL]
            omega
          rw [Nat.add_assoc _ 1 j, Nat.add_comm 1 j]
          apply (Pool.next_chunk heap.mp (Nat.lt_of_succ_lt hlast)).trans
          rw [if_pos hlast]
        · rw [Nat.add_assoc _ 1]
          apply (Pool.next_chunk heap.mp (by decide)).trans
          rw [if_neg]
          decide
      · intro k _ n hn
        apply Pool.next_grown (hlt hn)
      · intro k _ n hn hn'
        have hn' := hlt hn'
        rw [List.mem_range'_1] at hn
        omega
    · intro n
      rw [LinkedLists.exists_mem_update
        (P := fun n => heap.mp.messages.length + 1 ≤ n ∧ n < heap.mp.messages.length + MESSAGEPOOL), ← h.mem]
      · change n < (heap.mp.messages ++ chunk β heap.mp.messages.length).length ↔ _
        rw [List.length_append, length_chunk, MESSAGEPOOL]
        omega
      · intro n
        rw [hl, List.mem_range'_1, MESSAGEPOOL, Nat.add_assoc _ 1]
        simp
    · intro k hm
      rcases eq_or_ne k none with rfl | hk
      · rw [Function.update_self, List.mem_range'_1] at hm
        omega
      · rw [Function.update_of_ne hk] at hm
        apply Nat.lt_irrefl _ (hlt hm)
    · intro i
      rw [Function.update_of_ne (Option.some_ne_none i), ← h.loads i]
      apply List.map_congr_left
      intro n hn
      apply Pool.load_grown (hlt hn)
    · intro i
      rw [Function.update_of_ne (Option.some_ne_none i)]
      apply h.tail

/-- A message can be taken whenever it is needed. -/
theorem Shape.take {heap : Heap ι β} (h : Shape data heap lists blocks) :
  ∃ m mp' lists', take heap.mp = some (m, mp') ∧ Loose data { heap with mp := mp' } lists' blocks m
  := by
  cases hl : lists none with
  | nil =>
      obtain ⟨htake, hloose⟩ := h.take_chunk hl
      exact ⟨_, _, _, htake, hloose⟩
  | cons m l =>
      obtain ⟨htake, hloose⟩ := h.take_free hl
      exact ⟨_, _, _, htake, hloose⟩

/-! ### Appending a message -/

/-- The message that has been taken is put at the end of a list. -/
theorem Loose.shape {db' : Databuffer} {block : β} (h : Loose data (.put g i db mp) lists blocks m)
    (hlinked : LinkedLists mp'.next (Heap.put g i db' mp').root
      (Function.update lists (some i) (lists (some i) ++ [m])))
    (hlength : mp'.messages.length = mp.messages.length) (hload : ∀ n ≠ m, mp'.load n = mp.load n)
    (hm : mp'.load m = loaded data block) (htail : db'.tail = some m) :
  Shape data (.put g i db' mp') (Function.update lists (some i) (lists (some i) ++ [m]))
    (Function.update blocks i (blocks i ++ [block]))
  where
  linked := hlinked
  mem n := by
    change n < mp'.messages.length ↔ _
    rw [hlength, LinkedLists.exists_mem_update (P := fun n => n = m)]
    · apply h.mem
    · intro n
      rw [List.mem_append, List.mem_singleton, or_comm]
  loads j := by
    have hmap : ∀ k, (lists k).map mp'.load = (lists k).map mp.load := by
      intro k
      apply List.map_congr_left
      intro n hn
      apply hload
      rintro rfl
      apply h.notMem k hn
    change List.map mp'.load _ = _
    rcases eq_or_ne j i with rfl | hj
    · rw [Function.update_self, Function.update_self, List.map_append, List.map_append, List.map_singleton,
        List.map_singleton, hm, hmap]
      apply congrArg (· ++ [loaded data block])
      apply h.loads
    · rw [Function.update_of_ne fun heq => hj (Option.some.inj heq), Function.update_of_ne hj, hmap]
      apply h.loads
  tail j := by
    rcases eq_or_ne j i with rfl | hj
    · rw [Heap.db_put_self, Function.update_self, htail, List.getLast?_concat]
    · have htail := h.tail j
      rw [Heap.db_put_of_ne hj] at htail
      rw [Heap.db_put_of_ne hj, Function.update_of_ne fun heq => hj (Option.some.inj heq), htail]

/-- The message that holds a block as `databuffer_push` writes it. -/
def Pool.fill (data : β → List UInt8) (mp : Pool β) (m : ℕ) (block : β) : Pool β :=
  mp.write m ⟨some block, (data block).length, none⟩

/-- The message is the first of a list. -/
theorem Loose.first {db' : Databuffer} (h : Loose data (.put g i db mp) lists blocks m) (hl : lists (some i) = [])
    (block : β) (hhead : db'.head = some m) (htail : db'.tail = some m) :
  Shape data (.put g i db' (mp.fill data m block)) (Function.update lists (some i) (lists (some i) ++ [m]))
    (Function.update blocks i (blocks i ++ [block]))
  := by
  have hm : m < mp.messages.length := (h.mem m).mpr (.inl rfl)
  have hnone : (Heap.put g i db mp).root (some i) = none := by
    have hlinked := h.linked.linked (some i)
    rw [hl] at hlinked
    apply hlinked
  apply h.shape _ (Pool.length_write _ _) (fun n hn => Pool.load_write_of_ne hn _) (Pool.load_write_self hm _) htail
  have hpush := (h.linked.update h.notMem none).push h.notMem (some i)
  rw [hnone] at hpush
  rw [Function.update_idem, hl] at hpush
  rw [Heap.root_put_of_freelist g i db db' mp (by rfl), hhead, Pool.next_write hm, hl, List.nil_append]
  apply hpush

/-- The message comes after the last one of a list. -/
theorem Loose.last {db' : Databuffer} {t : ℕ} (h : Loose data (.put g i db mp) lists blocks m)
    (hl : lists (some i) = l ++ [t]) (block : β) (ht : (mp.fill data m block).messages[t]? = some message)
    (hhead : db'.head = db.head) (htail : db'.tail = some m) :
  Shape data (.put g i db' ((mp.fill data m block).write t { message with next := some m }))
    (Function.update lists (some i) (lists (some i) ++ [m])) (Function.update blocks i (blocks i ++ [block]))
  := by
  have hm : m < mp.messages.length := (h.mem m).mpr (.inl rfl)
  have hlt : t < (mp.fill data m block).messages.length := (List.getElem?_eq_some_iff.mp ht).1
  have htm : m ≠ t := by
    rintro rfl
    apply h.notMem (some i)
    rw [hl]
    apply List.mem_append_right l (List.mem_singleton_self m)
  have hload : (mp.fill data m block).load t = some (message.buffer, message.size) := by
    rw [Pool.load, ht]
    rfl
  have hloads : ∀ n, ((mp.fill data m block).write t { message with next := some m }).load n
      = (mp.fill data m block).load n := by
    intro n
    rcases eq_or_ne n t with rfl | hn
    · rw [Pool.load_write_self hlt, hload]
    · apply Pool.load_write_of_ne hn
  apply h.shape _ _ _ _ htail
  · have happend := h.linked.append h.notMem hl
    have hroot := Heap.root_put_self g i db mp
    rw [Heap.root_put_of_freelist g i db db' mp (by rfl), hhead, ← hroot, Function.update_eq_self,
      Pool.next_write hlt, Pool.fill, Pool.next_write hm, hl, List.append_assoc]
    apply happend
  · rw [Pool.length_write, Pool.fill, Pool.length_write]
  · intro n hn
    rw [hloads]
    apply Pool.load_write_of_ne hn
  · rw [hloads]
    apply Pool.load_write_self hm

/-- `databuffer_push` puts a block at the end of a buffer. -/
theorem Shape.push (h : Shape data (.put g i db mp) lists blocks) (block : β) :
  ∃ db' mp' lists', push data db mp block = some (db', mp') ∧ db'.header = db.header ∧ db'.offset = db.offset ∧
    db'.size = LittleEndian.toInt (db.size + (data block).length) ∧
    Shape data (.put g i db' mp') lists' (Function.update blocks i (blocks i ++ [block]))
  := by
  obtain ⟨m, mp', lists', htake, hloose⟩ := h.take
  have htake : MessagePool.take mp = some (m, mp') := htake
  have hloose : Loose data (.put g i db mp') lists' blocks m := hloose
  have hlinked := hloose.linked.linked (some i)
  have htail := hloose.tail i
  rw [Heap.root_put_self] at hlinked
  rw [Heap.db_put_self] at htail
  rcases List.eq_nil_or_concat (lists' (some i)) with hnil | ⟨l, t, hconcat⟩
  · rw [hnil] at hlinked htail
    use { db with size := LittleEndian.toInt (db.size + (data block).length), head := some m, tail := some m }
    refine ⟨_, _, ?_, rfl, rfl, rfl, hloose.first hnil block rfl rfl⟩
    have hhead : db.head = none := hlinked
    have htail : db.tail = none := htail
    simp only [MessagePool.push, htake, hhead, htail, if_pos, Option.bind_eq_bind, Option.bind_some]
    rfl
  · rw [List.concat_eq_append] at hconcat
    have ht : t < (mp'.fill data m block).messages.length := by
      rw [Pool.fill, Pool.length_write]
      apply (hloose.mem t).mpr
      right
      use some i
      rw [hconcat]
      apply List.mem_append_right l (List.mem_singleton_self t)
    obtain ⟨first, hhead⟩ : ∃ first, db.head = some first := by
      rw [← Option.ne_none_iff_exists']
      intro hnone
      have hempty := hlinked.eq_nil_iff.mpr hnone
      rw [hconcat] at hempty
      cases List.append_ne_nil_of_right_ne_nil l (List.cons_ne_nil t []) hempty
    use { db with size := LittleEndian.toInt (db.size + (data block).length), head := some first, tail := some m }
    refine ⟨_, _, ?_, rfl, rfl, rfl, hloose.last hconcat block (List.getElem?_eq_getElem ht) hhead.symm rfl⟩
    rw [hconcat, List.getLast?_concat] at htail
    have hmessage : (mp'.write m ⟨some block, (data block).length, none⟩).messages[t]? = some _ :=
      List.getElem?_eq_getElem ht
    simp only [MessagePool.push, htake, hhead, htail, hmessage, Option.bind_eq_bind, Option.bind_some]
    rfl

end MessagePool

end Skynet
