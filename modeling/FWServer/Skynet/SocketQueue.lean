import FWServer.Skynet.SocketServer
import Mathlib.Data.List.Basic

/-!
# What the lists of a socket stand for

The packages a socket has accepted have been written, are being written or are queued.  `Part` relates a list
of write buffers to the packages it stands for, the first of which may have been written in part, and `Queue`
does so for a socket: the bytes written are those of whole packages and of a part of the first one in the
list of high priority, and of each priority the packages are in the order in which they were accepted.
-/

namespace Skynet

/-- A package that has been accepted. -/
structure Package where
  priority : Priority
  bytes : List UInt8
  deriving DecidableEq

/-- The bytes of packages one after the other. -/
def bytesOf (packages : List Package) : List UInt8 :=
  packages.flatMap Package.bytes

/-- The packages of a priority. -/
def ofPriority (priority : Priority) (packages : List Package) : List Package :=
  packages.filter fun package => package.priority = priority

/-- The bytes still to be written. -/
def pending (list : List WriteBuffer) : List UInt8 :=
  list.flatMap WriteBuffer.data

/-- The bytes written are a beginning of whole packages one after the other, and of each priority these are the
first that have been accepted, in the same order. -/
def Whole (accepted : List Package) (sent : List UInt8) : Prop :=
  ∃ order, (∀ priority, ofPriority priority order <+: ofPriority priority accepted) ∧ sent <+: bytesOf order

/-- The bytes written are those of all packages that have been accepted. -/
def Complete (accepted : List Package) (sent : List UInt8) : Prop :=
  ∃ order, (∀ priority, ofPriority priority order = ofPriority priority accepted) ∧ sent = bytesOf order

@[simp]
theorem bytesOf_nil :
  bytesOf [] = []
  := rfl

@[simp]
theorem bytesOf_cons (package : Package) (packages : List Package) :
  bytesOf (package :: packages) = package.bytes ++ bytesOf packages
  := rfl

theorem bytesOf_append (packages packages' : List Package) :
  bytesOf (packages ++ packages') = bytesOf packages ++ bytesOf packages'
  := List.flatMap_append

theorem ofPriority_append (priority : Priority) (packages packages' : List Package) :
  ofPriority priority (packages ++ packages') = ofPriority priority packages ++ ofPriority priority packages'
  := List.filter_append _ _

@[simp]
theorem pending_nil :
  pending [] = []
  := rfl

@[simp]
theorem pending_cons (wb : WriteBuffer) (list : List WriteBuffer) :
  pending (wb :: list) = wb.data ++ pending list
  := rfl

theorem pending_append (list list' : List WriteBuffer) :
  pending (list ++ list') = pending list ++ pending list'
  := List.flatMap_append

/-- Every byte is of a package of one of the priorities. -/
theorem length_bytesOf (packages : List Package) :
  (bytesOf packages).length
    = (bytesOf (ofPriority .high packages)).length + (bytesOf (ofPriority .low packages)).length
  := by
  induction packages with
  | nil => rfl
  | cons package packages ih =>
      have hcons : ∀ priority, ofPriority priority (package :: packages)
          = if package.priority = priority then package :: ofPriority priority packages
            else ofPriority priority packages := by
        intro priority
        rw [ofPriority, List.filter_cons]
        simp only [decide_eq_true_eq]
        rfl
      rw [hcons, hcons, bytesOf_cons, List.length_append, ih]
      cases package.priority with
      | high =>
          rw [if_pos rfl, if_neg nofun, bytesOf_cons, List.length_append]
          omega
      | low =>
          rw [if_neg nofun, if_pos rfl, bytesOf_cons, List.length_append]
          omega

/-! ### Lists of write buffers -/

/-- The list stands for the packages, of the first of which `before` has been written already. -/
inductive Part : List UInt8 → List WriteBuffer → List Package → Prop
  | nil : Part [] [] []
  | cons {before : List UInt8} {wb : WriteBuffer} {list : List WriteBuffer} {package : Package}
      {packages : List Package} : package.bytes = before ++ wb.data → Part [] list packages →
      Part before (wb :: list) (package :: packages)

section Part

variable {before : List UInt8} {list : List WriteBuffer} {packages : List Package}

theorem Part.eq_nil (h : Part before [] packages) :
  before = [] ∧ packages = []
  := by
  cases h
  exact ⟨rfl, rfl⟩

theorem Part.append (h : Part before list packages) {wb : WriteBuffer} {package : Package}
    (hbytes : package.bytes = wb.data) :
  Part before (list ++ [wb]) (packages ++ [package])
  := by
  induction h with
  | nil => exact .cons hbytes .nil
  | cons hfirst _ ih => exact .cons hfirst ih

/-- What has been written of the first package and what is pending are the bytes of the packages. -/
theorem Part.bytes (h : Part before list packages) :
  before ++ pending list = bytesOf packages
  := by
  induction h with
  | nil => rfl
  | cons hfirst _ ih =>
      rw [pending_cons, bytesOf_cons, hfirst, ← ih, List.nil_append, List.append_assoc]

/-- What `send_list_tcp` has written are whole packages, and a part of the next one. -/
theorem Part.sendListTcp (h : Part before list packages) {results : List WriteResult} {x : Sent}
    (hx : sendListTcp list results = some x) :
  ∃ finished rest before', packages = finished ++ rest ∧ Part before' x.list rest ∧
    before ++ x.sent = bytesOf finished ++ before'
  := by
  fun_induction Skynet.sendListTcp list results generalizing before packages x with
  | case1 results =>
      obtain rfl := Option.some.inj hx
      obtain ⟨rfl, rfl⟩ := h.eq_nil
      exact ⟨[], [], [], rfl, .nil, rfl⟩
  | case2 => cases hx
  | case3 tmp list results ih => exact ih h hx
  | case4 tmp list results =>
      obtain rfl := Option.some.inj hx
      exact ⟨[], packages, before, rfl, h, List.append_nil before⟩
  | case5 tmp list text results =>
      obtain rfl := Option.some.inj hx
      exact ⟨[], packages, before, rfl, h, List.append_nil before⟩
  | case6 => cases hx
  | case7 tmp list n results hle hne =>
      obtain rfl := Option.some.inj hx
      cases h with
      | cons hfirst hrest =>
          refine ⟨[], _, before ++ tmp.data.take n, rfl, .cons ?_ hrest, rfl⟩
          rw [hfirst, List.append_assoc, List.take_append_drop]
  | case8 tmp list n results hle heq ih =>
      obtain ⟨y, hy, rfl⟩ := Option.map_eq_some_iff.mp hx
      cases h with
      | cons hfirst hrest =>
          obtain ⟨finished, rest, before', rfl, hpart, hsent⟩ := ih hrest hy
          refine ⟨_ :: finished, rest, before', rfl, hpart, ?_⟩
          rw [bytesOf_cons, hfirst, List.append_assoc, ← hsent, Sent.after]
          simp

end Part

/-- What is written is not pending any more. -/
theorem length_sendListTcp {list : List WriteBuffer} {results : List WriteResult} {x : Sent}
    (hx : sendListTcp list results = some x) :
  (pending list).length = x.sent.length + (pending x.list).length
  := by
  fun_induction sendListTcp list results generalizing x with
  | case1 results =>
      obtain rfl := Option.some.inj hx
      rfl
  | case2 => cases hx
  | case3 tmp list results ih => exact ih hx
  | case4 tmp list results =>
      obtain rfl := Option.some.inj hx
      exact (Nat.zero_add _).symm
  | case5 tmp list text results =>
      obtain rfl := Option.some.inj hx
      exact (Nat.zero_add _).symm
  | case6 => cases hx
  | case7 tmp list n results hle hne =>
      obtain rfl := Option.some.inj hx
      simp only [pending_cons, List.length_append, List.length_take, List.length_drop]
      omega
  | case8 tmp list n results hle heq ih =>
      obtain ⟨y, hy, rfl⟩ := Option.map_eq_some_iff.mp hx
      have hlength := ih hy
      simp only [pending_cons, List.length_append, Sent.after]
      omega

/-- Of the buffers that are left all but the first are as before. -/
theorem tail_sendListTcp {list : List WriteBuffer} {results : List WriteResult} {x : Sent}
    (hx : sendListTcp list results = some x) :
  x.list.tail ⊆ list
  := by
  fun_induction sendListTcp list results generalizing x with
  | case1 results =>
      obtain rfl := Option.some.inj hx
      exact fun _ => id
  | case2 => cases hx
  | case3 tmp list results ih => exact ih hx
  | case4 tmp list results =>
      obtain rfl := Option.some.inj hx
      exact List.subset_cons_self _ _
  | case5 tmp list text results =>
      obtain rfl := Option.some.inj hx
      exact List.subset_cons_self _ _
  | case6 => cases hx
  | case7 tmp list n results hle hne =>
      obtain rfl := Option.some.inj hx
      exact List.subset_cons_self _ _
  | case8 tmp list n results hle heq ih =>
      obtain ⟨y, hy, rfl⟩ := Option.map_eq_some_iff.mp hx
      have htail := ih hy
      exact List.subset_cons_of_subset _ htail

/-- Raw buffers have not been written in part. -/
def Untouched (list : List WriteBuffer) : Prop :=
  ∀ wb ∈ list, wb.userobject = false → wb.ptr = wb.buffer

/-- A raw buffer begins with the bytes of the package. -/
theorem RequestSend.ptr_of_raw (request : RequestSend) (hraw : (request.writeBuffer 0).userobject = false) :
  (request.writeBuffer 0).ptr = (request.writeBuffer 0).buffer
  := by
  rw [writeBuffer] at hraw ⊢
  dsimp only at hraw ⊢
  rw [object] at hraw ⊢
  cases hpayload : request.payload with
  | raw data => rfl
  | object ptr data =>
      rw [hpayload] at hraw
      cases hraw

/-! ### Sockets -/

/-- The lists of a socket stand for the packages accepted that have not been written, and `wbSize` is the number of
the bytes still to be written.  In the list of low priority no raw buffer has been written in part. -/
structure Queue (s : Socket) (accepted : List Package) (sent : List UInt8) : Prop where
  packages : ∃ done before high low, Part before s.high high ∧ Part [] s.low low ∧
    (∀ package ∈ low, package.priority = .low) ∧
    (∀ priority, ofPriority priority (done ++ high ++ low) = ofPriority priority accepted) ∧
    sent = bytesOf done ++ before
  size : s.wbSize = (pending s.high).length + (pending s.low).length
  untouched : Untouched s.low

section Queue

variable {s : Socket} {accepted : List Package} {sent : List UInt8}

theorem Queue.whole (h : Queue s accepted sent) :
  Whole accepted sent
  := by
  obtain ⟨done, before, high, low, hhigh, -, -, horder, rfl⟩ := h.packages
  refine ⟨done ++ high ++ low, fun priority => horder priority ▸ List.prefix_refl _, ?_⟩
  rw [bytesOf_append, bytesOf_append, ← hhigh.bytes, ← List.append_assoc, List.append_assoc _ (pending s.high)]
  exact List.prefix_append _ _

theorem Queue.complete (h : Queue s accepted sent) (hhigh : s.high = []) (hlow : s.low = []) :
  Complete accepted sent
  := by
  obtain ⟨done, before, high, low, hpart, hpart', -, horder, rfl⟩ := h.packages
  rw [hhigh] at hpart
  rw [hlow] at hpart'
  obtain ⟨rfl, rfl⟩ := hpart.eq_nil
  obtain ⟨-, rfl⟩ := hpart'.eq_nil
  rw [List.append_nil, List.append_nil] at horder
  exact ⟨done, horder, List.append_nil _⟩

/-- The number of accepted bytes that have not been written is `wbSize`. -/
theorem Queue.length (h : Queue s accepted sent) :
  s.wbSize + sent.length = (bytesOf accepted).length
  := by
  obtain ⟨done, before, high, low, hhigh, hlow, -, horder, rfl⟩ := h.packages
  have htotal : (bytesOf (done ++ high ++ low)).length = (bytesOf accepted).length := by
    rw [length_bytesOf, length_bytesOf accepted, horder .high, horder .low]
  have hhigh := congrArg List.length hhigh.bytes
  have hlow := congrArg List.length hlow.bytes
  rw [h.size, ← htotal, bytesOf_append, bytesOf_append]
  simp only [List.length_append, List.length_nil] at hhigh hlow ⊢
  omega

theorem Queue.of_empty (hhigh : s.high = []) (hlow : s.low = []) (hsize : s.wbSize = 0) :
  Queue s [] []
  := by
  constructor
  · refine ⟨[], [], [], [], ?_, ?_, nofun, fun _ => rfl, rfl⟩
    · rw [hhigh]
      exact .nil
    · rw [hlow]
      exact .nil
  · rw [hsize, hhigh, hlow]
    rfl
  · rw [hlow]
    exact nofun

/-- The other fields do not matter. -/
theorem Queue.congr (h : Queue s accepted sent) {s' : Socket} (hhigh : s'.high = s.high)
    (hlow : s'.low = s.low) (hsize : s'.wbSize = s.wbSize) :
  Queue s' accepted sent
  := by
  constructor
  · rw [hhigh, hlow]
    exact h.packages
  · rw [hhigh, hlow, hsize]
    exact h.size
  · rw [hlow]
    exact h.untouched

/-- A package is appended to the list of its priority. -/
theorem Queue.append (h : Queue s accepted sent) (request : RequestSend) (priority : Priority) :
  Queue (s.append request priority 0) (accepted ++ [⟨priority, request.bytes⟩]) sent
  := by
  obtain ⟨done, before, high, low, hhigh, hlow, hpriority, horder, hsent⟩ := h.packages
  have hlength : (pending [request.writeBuffer 0]).length = (request.writeBuffer 0).data.length := by
    rw [pending_cons, pending_nil, List.append_nil]
  have hsize := h.size
  cases priority with
  | high =>
      constructor
      · refine ⟨done, before, high ++ [⟨.high, request.bytes⟩], low, hhigh.append rfl, hlow, hpriority, ?_, hsent⟩
        intro priority
        have hnone : ofPriority .high low = [] := by
          apply List.filter_eq_nil_iff.mpr
          intro package hpackage
          rw [hpriority package hpackage]
          exact nofun
        rw [ofPriority_append priority accepted, ← horder priority]
        simp only [ofPriority_append, List.append_assoc]
        cases priority with
        | high => rw [hnone, List.nil_append, List.append_nil]
        | low =>
            have hother : ofPriority .low [⟨.high, request.bytes⟩] = [] := rfl
            rw [hother, List.append_nil, List.nil_append]
      · simp only [Socket.append, pending_append, List.length_append, hlength]
        omega
      · exact h.untouched
  | low =>
      constructor
      · refine ⟨done, before, high, low ++ [⟨.low, request.bytes⟩], hhigh, hlow.append rfl, ?_, ?_, hsent⟩
        · intro package hpackage
          rcases List.mem_append.mp hpackage with hpackage | hpackage
          · exact hpriority package hpackage
          · rw [List.mem_singleton.mp hpackage]
        · intro priority
          rw [ofPriority_append priority accepted, ← horder priority, ← ofPriority_append,
            List.append_assoc (done ++ high)]
      · simp only [Socket.append, pending_append, List.length_append, hlength]
        omega
      · intro wb hwb
        rcases List.mem_append.mp hwb with hwb | hwb
        · exact h.untouched wb hwb
        · obtain rfl := List.mem_singleton.mp hwb
          exact request.ptr_of_raw

/-- A package written at once, when nothing is queued. -/
theorem Queue.written (h : Queue s accepted sent) (hhigh : s.high = []) (hlow : s.low = [])
    (package : Package) :
  Queue s (accepted ++ [package]) (sent ++ package.bytes)
  := by
  obtain ⟨order, horder, rfl⟩ := h.complete hhigh hlow
  constructor
  · refine ⟨order ++ [package], [], [], [], ?_, ?_, nofun, ?_, ?_⟩
    · rw [hhigh]
      exact .nil
    · rw [hlow]
      exact .nil
    · intro priority
      rw [List.append_nil, List.append_nil, ofPriority_append, ofPriority_append, horder priority]
    · rw [bytesOf_append, bytesOf_cons, bytesOf_nil, List.append_nil, List.append_nil]
  · exact h.size
  · exact h.untouched

/-- A package written in part, when nothing is queued: the rest goes to the list of high priority. -/
theorem Queue.begun (h : Queue s accepted sent) (hhigh : s.high = []) (hlow : s.low = [])
    (request : RequestSend) (priority : Priority) (n : ℕ) :
  Queue (s.append request .high n) (accepted ++ [⟨priority, request.bytes⟩]) (sent ++ request.bytes.take n)
  := by
  obtain ⟨order, horder, rfl⟩ := h.complete hhigh hlow
  have hsize := h.size
  constructor
  · refine ⟨order, request.bytes.take n, [⟨priority, request.bytes⟩], [], ?_, ?_, nofun, ?_, rfl⟩
    · simp only [Socket.append, hhigh, List.nil_append]
      exact .cons (List.take_append_drop n request.bytes).symm .nil
    · simp only [Socket.append, hlow]
      exact .nil
    · intro priority
      rw [List.append_nil, ofPriority_append, ofPriority_append, horder priority]
  · simp only [Socket.append, hhigh, hlow, List.nil_append, pending_cons, pending_nil, List.append_nil,
      List.length_nil] at hsize ⊢
    omega
  · exact h.untouched

/-- The list of high priority is written. -/
theorem Queue.sendHigh (h : Queue s accepted sent) {results : List WriteResult} {x : Sent}
    (hx : sendListTcp s.high results = some x) :
  Queue { s with high := x.list, wbSize := s.wbSize - x.sent.length } accepted (sent ++ x.sent)
  := by
  obtain ⟨done, before, high, low, hhigh, hlow, hpriority, horder, rfl⟩ := h.packages
  obtain ⟨finished, rest, before', rfl, hpart, hsent⟩ := hhigh.sendListTcp hx
  have hlength := length_sendListTcp hx
  have hsize := h.size
  constructor
  · refine ⟨done ++ finished, before', rest, low, hpart, hlow, hpriority, ?_, ?_⟩
    · intro priority
      rw [← horder priority, List.append_assoc done finished rest]
    · rw [List.append_assoc, hsent, bytesOf_append, List.append_assoc]
  · dsimp only
    omega
  · exact h.untouched

/-- The list of low priority is written when nothing is in the other: then the first package of what is left may have
been written in part, and would have to be moved. -/
theorem Queue.sendLow (h : Queue s accepted sent) (hhigh : s.high = []) {results : List WriteResult} {x : Sent}
    (hx : sendListTcp s.low results = some x) :
  ∃ done before low, Part before x.list low ∧ (∀ package ∈ low, package.priority = .low) ∧
    (∀ priority, ofPriority priority (done ++ low) = ofPriority priority accepted) ∧
    sent ++ x.sent = bytesOf done ++ before
  := by
  obtain ⟨done, before, high, low, hpart, hlow, hpriority, horder, rfl⟩ := h.packages
  rw [hhigh] at hpart
  obtain ⟨rfl, rfl⟩ := hpart.eq_nil
  obtain ⟨finished, rest, before', rfl, hpart, hsent⟩ := hlow.sendListTcp hx
  refine ⟨done ++ finished, before', rest, hpart, ?_, ?_, ?_⟩
  · intro package hpackage
    exact hpriority package (List.mem_append_right _ hpackage)
  · intro priority
    rw [← horder priority, List.append_nil, List.append_assoc]
  · rw [List.append_nil, bytesOf_append, List.append_assoc, ← hsent, List.nil_append]

/-- If a package is left, it can be moved to the other list. -/
theorem Queue.raised (h : Queue s accepted sent) (hhigh : s.high = []) {results : List WriteResult} {x : Sent}
    (hx : sendListTcp s.low results = some x) {tmp : WriteBuffer} {list : List WriteBuffer}
    (hlist : x.list = tmp :: list) :
  Queue { s with high := [tmp], low := list, wbSize := s.wbSize - x.sent.length } accepted (sent ++ x.sent)
  := by
  obtain ⟨done, before, low, hpart, hpriority, horder, hsent⟩ := h.sendLow hhigh hx
  have hlength := length_sendListTcp hx
  have htail := tail_sendListTcp hx
  have hsize := h.size
  rw [hlist] at hpart hlength htail
  rw [hhigh] at hsize
  cases hpart with
  | @cons _ _ _ package packages hfirst hrest =>
      constructor
      · refine ⟨done, before, [package], packages, .cons hfirst .nil, hrest, ?_, ?_, hsent⟩
        · intro p hp
          exact hpriority p (.tail _ hp)
        · intro priority
          rw [← horder priority, List.append_assoc, List.singleton_append]
      · simp only [pending_cons, pending_nil, List.append_nil, List.length_append, List.length_nil] at hsize hlength ⊢
        omega
      · exact fun wb hwb => h.untouched wb (htail hwb)

/-- If nothing is left, both lists are empty. -/
theorem Queue.drained (h : Queue s accepted sent) (hhigh : s.high = []) {results : List WriteResult} {x : Sent}
    (hx : sendListTcp s.low results = some x) (hlist : x.list = []) :
  Queue { s with low := [], wbSize := s.wbSize - x.sent.length } accepted (sent ++ x.sent)
  := by
  obtain ⟨done, before, low, hpart, -, horder, hsent⟩ := h.sendLow hhigh hx
  have hlength := length_sendListTcp hx
  have hsize := h.size
  rw [hlist] at hpart hlength
  obtain ⟨rfl, rfl⟩ := hpart.eq_nil
  constructor
  · refine ⟨done, [], [], [], ?_, .nil, nofun, ?_, hsent⟩
    · dsimp only
      rw [hhigh]
      exact .nil
    · intro priority
      rw [← horder priority, List.append_nil]
  · simp only [pending_nil, List.length_nil] at hlength ⊢
    omega
  · exact nofun

/-- In any case what has been written are whole packages. -/
theorem Queue.whole_sendLow (h : Queue s accepted sent) (hhigh : s.high = []) {results : List WriteResult}
    {x : Sent} (hx : sendListTcp s.low results = some x) :
  Whole accepted (sent ++ x.sent)
  := by
  cases hlist : x.list with
  | nil => exact (h.drained hhigh hx hlist).whole
  | cons tmp list => exact (h.raised hhigh hx hlist).whole

end Queue

end Skynet
