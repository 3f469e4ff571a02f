import FWServer.Kernel.Framing
import FWServer.Kernel.RingBuffer
import Mathlib.Data.Int.Notation

/-!
# The filter of a byte stream

`lualib-src/lua-msgpack.c`: `lfilter` is given what has arrived on a socket and finds the packages in it.
A package that comes alone is returned; when there is more, the packages are put in a queue, from which
`lpop` takes them.  What has arrived of a package that is not complete yet is kept in a record, in one of
the chains of a hash table.

The queue is created when it is first needed; `none` is the null pointer the script starts with.  A
buffer is the list of the bytes that have been copied into it.  The size of a chunk, an `int`, is the
length of its list of bytes; no chunk is empty, so where the code would read a byte past the end of one
nothing is done here.
-/

namespace Netpack

/-- `QUEUESIZE` -/
def QUEUESIZE : ℕ := 1024

/-- `HASHSIZE` -/
def HASHSIZE : ℕ := 4096

/-- A file descriptor, a C `int`. -/
abbrev Fd : Type := BitVec 32

/-- `struct netpack` -/
structure Pack where
  id : Fd
  size : ℕ
  buffer : List UInt8
  deriving DecidableEq, Inhabited

/-- `struct uncomplete`, in a chain. -/
structure Uncomplete where
  pack : Pack
  read : ℤ
  header : UInt8
  deriving DecidableEq

/-- `struct queue` -/
structure Queue where
  ring : RingBuffer Pack
  hash : ℕ → List Uncomplete

/-- What `lfilter` returns besides the queue. -/
inductive Result where
  | nothing
  | data (fd : Fd) (msg : List UInt8) (size : ℕ)
  | more
  deriving DecidableEq

/-- `hash_fd` -/
def hashFd (fd : Fd) : ℕ :=
  (fd.sshiftRight 24 + fd.sshiftRight 12 + fd).toNat % HASHSIZE

/-! ### The chains -/

/-- Takes the record of `fd` out of a chain. -/
def unlink (fd : Fd) : List Uncomplete → Option (Uncomplete × List Uncomplete)
  | [] => none
  | uc :: rest =>
      if uc.pack.id = fd then some (uc, rest)
      else (unlink fd rest).map fun (found, rest) => (found, uc :: rest)

/-- `find_uncomplete` -/
def findUncomplete (q : Option Queue) (fd : Fd) : Option (Uncomplete × Queue) :=
  q.bind fun q => (unlink fd (q.hash (hashFd fd))).map fun (uc, rest) =>
    (uc, { q with hash := Function.update q.hash (hashFd fd) rest })

/-- Puts a record at the head of its chain. -/
def link (uc : Uncomplete) (q : Queue) : Queue :=
  let h := hashFd uc.pack.id
  { q with hash := Function.update q.hash h (uc :: q.hash h) }

/-! ### The queue -/

/-- `get_queue` -/
def getQueue : Option Queue → Queue
  | some q => q
  | none => ⟨RingBuffer.empty QUEUESIZE (by decide) fun _ => default, fun _ => []⟩

/-- `push_data`.  At the end of the array the tail goes back by `cap`, to the first slot, and a queue that
has become full is copied to one with `QUEUESIZE` more slots. -/
def pushData (q : Option Queue) (fd : Fd) (buffer : List UInt8) (size : ℕ) : Queue :=
  let q := getQueue q
  let ring := q.ring.push ⟨fd, size, buffer⟩ (q.ring.cap + QUEUESIZE)
    (Nat.lt_add_of_pos_right (by decide))
  { q with ring := ring }

/-- `save_uncomplete`, with what the record is then filled with. -/
def saveUncomplete (q : Option Queue) (uc : Uncomplete) : Queue :=
  link uc (getQueue q)

/-- `read_size` -/
def readSize (b₀ b₁ : UInt8) : ℕ :=
  b₀.toNat <<< 8 ||| b₁.toNat

/-! ### The filter -/

/-- `push_more` -/
def pushMore (q : Option Queue) (fd : Fd) : List UInt8 → Option Queue
  | [] => q
  | [b] => some (saveUncomplete q ⟨⟨fd, 0, []⟩, -1, b⟩)
  | b₀ :: b₁ :: buffer =>
      let packSize := readSize b₀ b₁
      if buffer.length < packSize then
        some (saveUncomplete q ⟨⟨fd, packSize, buffer⟩, buffer.length, 0⟩)
      else
        let q := pushData q fd (buffer.take packSize) packSize
        let rest := buffer.drop packSize
        if 0 < rest.length then pushMore (some q) fd rest else some q
termination_by buffer => buffer.length
decreasing_by
  rw [List.length_drop, List.length_cons, List.length_cons]
  omega

/-- Reads the second byte of the size, if only the first one has been read. -/
def fillHeader (uc : Uncomplete) (buffer : List UInt8) : Uncomplete × List UInt8 :=
  if uc.read < 0 then
    match buffer with
    | [] => (uc, [])
    | b :: buffer =>
        ({ uc with
            pack := { uc.pack with size := b.toNat ||| uc.header.toNat <<< 8, buffer := [] }
            read := 0 },
          buffer)
  else (uc, buffer)

/-- `filter_data_` -/
def filterData (q : Option Queue) (fd : Fd) (buffer : List UInt8) : Option Queue × Result :=
  match findUncomplete q fd with
  | some (uc, q) =>
      let (uc, buffer) := fillHeader uc buffer
      let need := (uc.pack.size - uc.read).toNat
      if buffer.length < need then
        (some (link
          { uc with
            pack := { uc.pack with buffer := uc.pack.buffer ++ buffer }
            read := uc.read + buffer.length } q), .nothing)
      else
        let msg := uc.pack.buffer ++ buffer.take need
        let rest := buffer.drop need
        if rest.length = 0 then (some q, .data fd msg uc.pack.size)
        else (pushMore (some (pushData (some q) fd msg uc.pack.size)) fd rest, .more)
  | none =>
      match buffer with
      | [] => (q, .nothing)
      | [b] => (some (saveUncomplete q ⟨⟨fd, 0, []⟩, -1, b⟩), .nothing)
      | b₀ :: b₁ :: buffer =>
          let packSize := readSize b₀ b₁
          if buffer.length < packSize then
            (some (saveUncomplete q ⟨⟨fd, packSize, buffer⟩, buffer.length, 0⟩), .nothing)
          else if buffer.length = packSize then (q, .data fd buffer packSize)
          else
            let q := pushData q fd (buffer.take packSize) packSize
            (pushMore (some q) fd (buffer.drop packSize), .more)

/-- `lfilter` -/
def lfilter (q : Option Queue) (fd : Fd) (buffer : List UInt8) : Option Queue × Result :=
  filterData q fd buffer

/-- `lpop` -/
def lpop (q : Option Queue) : Option (Pack × Queue) :=
  q.bind fun q => q.ring.pop.map fun (pack, ring) => (pack, { q with ring := ring })

theorem lpop_contents {q : Option Queue} {pack : Pack} {q' : Queue} (h : lpop q = some (pack, q')) :
  (getQueue q).ring.contents = pack :: q'.ring.contents
  := by
  obtain ⟨q, rfl, hpop⟩ := Option.bind_eq_some_iff.mp h
  obtain ⟨⟨pack', ring⟩, hring, heq⟩ := Option.map_eq_some_iff.mp hpop
  obtain ⟨rfl, rfl⟩ := Prod.mk.inj heq
  exact RingBuffer.contents_pop hring

theorem lpop_eq_none {q : Option Queue} :
  lpop q = none ↔ (getQueue q).ring.contents = []
  := by
  cases q with
  | none => exact iff_of_true rfl rfl
  | some q => exact Option.map_eq_none_iff.trans RingBuffer.pop_eq_none

/-- Takes the packages out of the queue until there is none left. -/
def drain (q : Option Queue) : List Pack × Option Queue :=
  match _hpop : lpop q with
  | none => ([], q)
  | some (pack, q') =>
      let (packs, q'') := drain (some q')
      (pack :: packs, q'')
termination_by (getQueue q).ring.contents.length
decreasing_by
  rw [lpop_contents _hpop, List.length_cons]
  exact Nat.lt_succ_self _

/-! ### Receiving -/

/-- The packages delivered when a chunk arrives: the one that is returned, or those in the queue. -/
def receive (q : Option Queue) (fd : Fd) (chunk : List UInt8) : List Pack × Option Queue :=
  match lfilter q fd chunk with
  | (q, .nothing) => ([], q)
  | (q, .data fd msg size) => ([⟨fd, size, msg⟩], q)
  | (q, .more) => drain q

/-- The packages delivered when chunks arrive one after the other. -/
def receiveAll (arrivals : List (Fd × List UInt8)) : List Pack × Option Queue :=
  arrivals.foldl
    (fun x arrival =>
      let y := receive x.2 arrival.1 arrival.2
      (x.1 ++ y.1, y.2))
    ([], none)

end Netpack
