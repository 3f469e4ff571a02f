import FWServer.Skynet.Rwlock

/-!
# Shared objects

`lualib-src/lua-stm.c`: a writer and any number of readers share an object, which points at the copy of the last
update.  The object and its copies are freed when their references are gone.  The boxes of the writer and of the
readers are in services of their own, so that what the functions do to the object is run by any number of threads;
every access to the object, to its lock or to the references of a copy is one instruction.

A box at rest is an instruction as well, `writer` or `reader`, and what its service does with it next is the choice
of the outside.  A pointer that `stm.copy` has given is taken by one call of `stm.newcopy`.  An assertion that fails
ends the process.
-/

namespace Skynet

namespace Stm

/-- The object, its copies by their numbers, and the pointers that have been given and not been taken.
`objectFrees` and `copyFrees` count how often something has been freed, `dangling` tells whether something has been
touched after that, `aborted` whether an assertion has failed, and `overflowed` whether one has been added to
references that were the largest `int`. -/
structure Node where
  made : Bool
  lock : Rwlock
  reference : Int32
  copy : Option ℕ
  copies : ℕ
  copyReference : ℕ → Int32
  msg : ℕ → List UInt8
  pointers : ℕ
  objectFrees : ℕ
  copyFrees : ℕ → ℕ
  dangling : Bool
  aborted : Bool
  overflowed : Bool

/-- No object has been made. -/
def Node.init : Node where
  made := false
  lock := .init
  reference := 0
  copy := none
  copies := 0
  copyReference _ := 0
  msg _ := []
  pointers := 0
  objectFrees := 0
  copyFrees _ := 0
  dangling := false
  aborted := false
  overflowed := false

/-- `struct boxreader`, with the copies that the function of `lread` has been called with, newest first. -/
structure BoxReader where
  lastcopy : Option ℕ
  seen : List ℕ
  deriving DecidableEq

/-- What the lock is taken for. -/
inductive Section where
  | grab
  | update (copy : ℕ)
  | release
  | copy (box : BoxReader)
  | releaseReader (box : BoxReader)
  deriving DecidableEq

/-- The instructions. -/
inductive Instr where
  /-- `lnewwriter` -/
  | newWriter
  /-- The box of the writer -/
  | writer
  /-- `lnewreader` -/
  | newReader
  /-- The box of a reader -/
  | reader (box : BoxReader)
  /-- `rwlock_rlock` or `rwlock_wlock` -/
  | acquire (a : Rwlock.Acquire) (s : Section)
  /-- `int ref = ATOM_FINC(&obj->reference)` -/
  | grabReference
  /-- `rwlock_runlock(&obj->lock)`, in `stm_grab`, and `assert(ref > 0)` -/
  | grabUnlock (ref : Int32)
  /-- `oldcopy = obj->copy; obj->copy = copy` -/
  | swap (copy : ℕ)
  /-- `rwlock_wunlock(&obj->lock)`, in `stm_update` -/
  | updateUnlock (oldcopy : Option ℕ)
  /-- `stm_releasecopy` -/
  | releaseCopy (copy : Option ℕ)
  /-- `skynet_free(copy->msg); skynet_free(copy)` -/
  | freeCopy (copy : ℕ)
  /-- `stm_releasecopy(obj->copy)`, in `stm_release` -/
  | releaseLast
  /-- `obj->copy = NULL` -/
  | clearCopy
  /-- `if (--obj->reference > 0)` -/
  | releaseReference
  /-- `rwlock_wunlock(&obj->lock)`, in `stm_release` -/
  | releaseUnlock
  /-- `skynet_free(obj)`, in `stm_release` -/
  | releaseFree
  /-- `ret = obj->copy` -/
  | loadCopy (box : BoxReader)
  /-- `int ref = ATOM_FINC(&ret->reference); assert(ref > 0)` -/
  | grabCopy (ret : ℕ) (box : BoxReader)
  /-- `rwlock_runlock(&obj->lock)`, in `stm_copy` -/
  | copyUnlock (ret : Option ℕ) (box : BoxReader)
  /-- `if (copy == box->lastcopy)` -/
  | compare (copy : Option ℕ) (box : BoxReader)
  /-- `box->lastcopy = copy`, and the call of the function unless the copy is `NULL` -/
  | deliver (copy : Option ℕ) (seen : List ℕ)
  /-- `if (ATOM_DEC(&obj->reference) == 0)` -/
  | readerReference (box : BoxReader)
  /-- `rwlock_runlock(&obj->lock)`, in `stm_releasereader` -/
  | readerUnlock
  /-- `assert(obj->copy == NULL); skynet_free(obj)` -/
  | readerFree
  deriving DecidableEq

/-- What a service does with a box: `lcopy`, `lupdate` and `ldeletewriter`, or `lread` and `ldeletereader`. -/
inductive Action where
  | copy
  | update (msg : List UInt8)
  | read
  | delete

namespace Node

/-- An assertion fails: the instruction goes no further. -/
def abort (w : Node) (i : Instr) : Option (Node × List Instr) :=
  some ({ w with aborted := true }, [i])

/-- One is added to references. -/
def overflow (w : Node) (reference : Int32) : Node :=
  { w with overflowed := w.overflowed || decide (reference = Int32.maxValue) }

/-- The object is touched. -/
def touch (w : Node) : Node :=
  { w with dangling := w.dangling || decide (w.objectFrees ≠ 0) }

/-- A copy is touched. -/
def touchCopy (w : Node) (c : ℕ) : Node :=
  { w with dangling := w.dangling || decide (w.copyFrees c ≠ 0) }

/-- All but `dangling` stays as it is. -/
@[simp]
theorem touch_fields (w : Node) :
  w.touch.made = w.made ∧ w.touch.lock = w.lock ∧ w.touch.reference = w.reference ∧ w.touch.copy = w.copy ∧
    w.touch.copies = w.copies ∧ w.touch.copyReference = w.copyReference ∧ w.touch.pointers = w.pointers ∧
    w.touch.objectFrees = w.objectFrees ∧ w.touch.copyFrees = w.copyFrees ∧ w.touch.aborted = w.aborted ∧
    w.touch.overflowed = w.overflowed
  := ⟨rfl, rfl, rfl, rfl, rfl, rfl, rfl, rfl, rfl, rfl, rfl⟩

/-- `stm_newcopy`; the new copy is the one of the number `copies`. -/
def newCopy (w : Node) (msg : List UInt8) : Node :=
  { w with
    copies := w.copies + 1
    copyReference := Function.update w.copyReference w.copies 1
    msg := Function.update w.msg w.copies msg }

/-- `stm_new` -/
def new (w : Node) (msg : List UInt8) : Node :=
  { w.newCopy msg with made := true, lock := .init, reference := 1, copy := some w.copies }

/-- `stm_releasecopy`, up to the frees -/
def releaseCopy (w : Node) : Option ℕ → Node × List Instr
  | none => (w, [])
  | some c =>
      ({ w.touchCopy c with copyReference := Function.update w.copyReference c (w.copyReference c - 1) },
        if w.copyReference c - 1 = 0 then [.freeCopy c] else [])

/-- The first instruction of a section. -/
def enter : Section → Instr
  | .grab => .grabReference
  | .update copy => .swap copy
  | .release => .releaseLast
  | .copy box => .loadCopy box
  | .releaseReader box => .readerReference box

/-- What an instruction does, and what is to be executed next; `action` is what the service of a box chooses. -/
def perform (w : Node) (action : Action) : Instr → Option (Node × List Instr)
  | .newWriter =>
      match action with
      | .update msg => if w.made then none else some (w.new msg, [.writer])
      | _ => none
  | .writer =>
      match action with
      | .copy => some (w, [.acquire Rwlock.rlock .grab])
      | .update msg => some (w.newCopy msg, [.acquire Rwlock.wlock (.update w.copies)])
      | .delete => if w.copy.isSome then some (w.touch, [.acquire Rwlock.wlock .release]) else w.touch.abort .writer
      | .read => none
  | .newReader =>
      if w.pointers = 0 then none else some ({ w with pointers := w.pointers - 1 }, [.reader ⟨none, []⟩])
  | .reader box =>
      match action with
      | .read => some (w, [.acquire Rwlock.rlock (.copy box)])
      | .delete => some (w, [.acquire Rwlock.rlock (.releaseReader box)])
      | _ => none
  | .acquire a s =>
      match w.lock.acquire a with
      | (lock, some a) => some ({ w.touch with lock := lock }, [.acquire a s])
      | (lock, none) => some ({ w.touch with lock := lock }, [enter s])
  | .grabReference =>
      some ({ w.touch.overflow w.reference with reference := w.reference + 1 }, [.grabUnlock w.reference])
  | .grabUnlock ref =>
      if 0 < ref then some ({ w.touch with lock := w.lock.runlock, pointers := w.pointers + 1 }, [.writer])
      else w.touch.abort (.grabUnlock ref)
  | .swap copy => some ({ w.touch with copy := some copy }, [.updateUnlock w.copy])
  | .updateUnlock oldcopy => some ({ w.touch with lock := w.lock.wunlock }, [.releaseCopy oldcopy, .writer])
  | .releaseCopy copy => some (w.releaseCopy copy)
  | .freeCopy c => some ({ w with copyFrees := Function.update w.copyFrees c (w.copyFrees c + 1) }, [])
  | .releaseLast =>
      let (w', freed) := w.touch.releaseCopy w.copy
      some (w', freed ++ [.clearCopy])
  | .clearCopy => some ({ w.touch with copy := none }, [.releaseReference])
  | .releaseReference =>
      some ({ w.touch with reference := w.reference - 1 },
        [if 0 < w.reference - 1 then .releaseUnlock else .releaseFree])
  | .releaseUnlock => some ({ w.touch with lock := w.lock.wunlock }, [])
  | .releaseFree => some ({ w.touch with objectFrees := w.objectFrees + 1 }, [])
  | .loadCopy box =>
      some (w.touch, [match w.copy with
        | none => .copyUnlock none box
        | some c => .grabCopy c box])
  | .grabCopy c box =>
      if 0 < w.copyReference c then
        some ({ (w.touchCopy c).overflow (w.copyReference c) with
          copyReference := Function.update w.copyReference c (w.copyReference c + 1) }, [.copyUnlock (some c) box])
      else (w.touchCopy c).abort (.grabCopy c box)
  | .copyUnlock ret box => some ({ w.touch with lock := w.lock.runlock }, [.compare ret box])
  | .compare copy box =>
      some (w, if copy = box.lastcopy then [.releaseCopy copy, .reader box]
        else [.releaseCopy box.lastcopy, .deliver copy box.seen])
  | .deliver none seen => some (w, [.reader ⟨none, seen⟩])
  | .deliver (some c) seen => some (w.touchCopy c, [.reader ⟨some c, c :: seen⟩])
  | .readerReference box =>
      some ({ w.touch with reference := w.reference - 1 },
        [if w.reference - 1 = 0 then .readerFree else .readerUnlock, .releaseCopy box.lastcopy])
  | .readerUnlock => some ({ w.touch with lock := w.lock.runlock }, [])
  | .readerFree =>
      if w.copy.isNone then some ({ w.touch with objectFrees := w.objectFrees + 1 }, []) else w.touch.abort .readerFree

end Node

/-- The threads of the services that have boxes, until the process has ended. -/
def programs : Programs Node Instr Action where
  starts i := i = .newWriter ∨ i = .newReader
  execute w action i := if w.aborted then none else w.perform action i

/-- All runs, from the start. -/
def machine : Machine (Programs.State Node Instr) (Programs.Step Instr Action) :=
  programs.machine fun w => w = .init

end Stm

end Skynet
