import FWServer.Kernel.LittleEndian
import FWServer.Kernel.Linked

/-!
# The buffers of the gate

`service-src/databuffer.h`: a buffer keeps the blocks that have arrived in a list of messages, which it takes from a
pool and gives back as they are read.  A pointer to a message is given by its index among all messages of the pool,
chunk by chunk as they have been allocated; the list of the chunks themselves is only used to free the pool, and is
left out.  `data` is what a block holds.  Where the code would go beyond a block, follow a null pointer or fail an
assertion there is no result.
-/

namespace Skynet

namespace MessagePool

/-- `MESSAGEPOOL` -/
def MESSAGEPOOL : ℕ := 1023

/-- `struct message` -/
structure Message (β : Type) where
  buffer : Option β
  size : ℤ
  next : Option ℕ

/-- `struct databuffer` -/
structure Databuffer where
  header : ℤ
  offset : ℤ
  size : ℤ
  head : Option ℕ
  tail : Option ℕ

/-- `struct messagepool` -/
structure Pool (β : Type) where
  messages : List (Message β)
  freelist : Option ℕ

variable {β : Type}

/-! ### The code -/

/-- A message is written. -/
def Pool.write (mp : Pool β) (m : ℕ) (message : Message β) : Pool β :=
  { mp with messages := mp.messages.set m message }

/-- What `_return_message` does with the buffer, given the first message and the one after it. -/
def advance (db : Databuffer) (m : ℕ) : Option ℕ → Option Databuffer
  | none => if db.tail = some m then some { db with head := none, tail := none } else none
  | some next => some { db with head := some next }

/-- `_return_message`, and the block that it frees. -/
def returnMessage (db : Databuffer) (mp : Pool β) : Option (Databuffer × Pool β × List β) := do
  let m ← db.head
  let message ← mp.messages[m]?
  let db ← advance db m message.next
  pure (db, { mp.write m ⟨none, 0, mp.freelist⟩ with freelist := some m }, message.buffer.toList)

/-- `memcpy(buffer, m->buffer + offset, n)` -/
def memcpy (data : β → List UInt8) (m : Message β) (offset n : ℤ) : Option (List UInt8) := do
  let block ← m.buffer
  if 0 ≤ offset ∧ 0 ≤ n ∧ offset + n ≤ (data block).length then
    some (((data block).drop offset.toNat).take n.toNat)
  else none

/-- The `for` of `databuffer_read`, for so many messages at most; what is copied, and the blocks that are freed. -/
def readLoop (data : β → List UInt8) :
    ℕ → Databuffer → Pool β → ℤ → Option (List UInt8 × Databuffer × Pool β × List β)
  | 0, _, _, _ => none
  | fuel + 1, db, mp, sz => do
      let m ← db.head
      let current ← mp.messages[m]?
      let bsz := current.size - db.offset
      if bsz > sz then
        let buffer ← memcpy data current db.offset sz
        pure (buffer, { db with offset := db.offset + sz }, mp, [])
      else if bsz = sz then
        let buffer ← memcpy data current db.offset sz
        let (db, mp, freed) ← returnMessage { db with offset := 0 } mp
        pure (buffer, db, mp, freed)
      else
        let buffer ← memcpy data current db.offset bsz
        let (db, mp, freed) ← returnMessage db mp
        let (buffer', db, mp, freed') ← readLoop data fuel { db with offset := 0 } mp (sz - bsz)
        pure (buffer ++ buffer', db, mp, freed ++ freed')

/-- `databuffer_read` -/
def read (data : β → List UInt8) (db : Databuffer) (mp : Pool β) (sz : ℤ) :
    Option (List UInt8 × Databuffer × Pool β × List β) :=
  if db.size ≥ sz then
    readLoop data mp.messages.length { db with size := LittleEndian.toInt (db.size - sz) } mp sz
  else none

/-- The messages of a new chunk, of which the first has the index `m`; they are linked in order.  What is in the first
does not matter, since it is the one that is taken. -/
def chunk (β : Type) (m : ℕ) : List (Message β) :=
  (List.range MESSAGEPOOL).map fun i => ⟨none, 0, if i + 1 < MESSAGEPOOL then some (m + i + 1) else none⟩

/-- What `databuffer_push` does first: it takes a message from the pool. -/
def take (mp : Pool β) : Option (ℕ × Pool β) :=
  match mp.freelist with
  | some m => do
      let message ← mp.messages[m]?
      pure (m, { mp with freelist := message.next })
  | none =>
      let m := mp.messages.length
      some (m, ⟨mp.messages ++ chunk β m, some (m + 1)⟩)

/-- `databuffer_push` -/
def push (data : β → List UInt8) (db : Databuffer) (mp : Pool β) (block : β) : Option (Databuffer × Pool β) := do
  let sz := (data block).length
  let (m, mp) ← take mp
  let mp := mp.write m ⟨some block, sz, none⟩
  let db := { db with size := LittleEndian.toInt (db.size + sz) }
  match db.head with
  | none => if db.tail = none then some ({ db with head := some m, tail := some m }, mp) else none
  | some _ =>
      let tail ← db.tail
      let message ← mp.messages[tail]?
      pure ({ db with tail := some m }, mp.write tail { message with next := some m })

/-- The `while` of `databuffer_clear`, for so many messages at most; the blocks that are freed. -/
def clearLoop : ℕ → Databuffer → Pool β → Option (Pool β × List β)
  | 0, db, mp => if db.head.isSome then none else some (mp, [])
  | fuel + 1, db, mp =>
      if db.head.isSome then do
        let (db, mp, freed) ← returnMessage db mp
        let (mp, freed') ← clearLoop fuel db mp
        pure (mp, freed ++ freed')
      else some (mp, [])

/-- A buffer after `memset`. -/
def zero : Databuffer where
  header := 0
  offset := 0
  size := 0
  head := none
  tail := none

/-- `databuffer_clear` -/
def clear (db : Databuffer) (mp : Pool β) : Option (Databuffer × Pool β × List β) := do
  let (mp, freed) ← clearLoop mp.messages.length db mp
  pure (zero, mp, freed)

end MessagePool

end Skynet
