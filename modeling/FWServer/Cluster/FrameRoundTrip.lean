import FWServer.Cluster.Frames
import Mathlib.Data.List.Forall2
import Mathlib.Tactic.Use

/-!
# Packing and unpacking frames

What is packed for another node is unpacked there: `frames_round_trip` says so of requests, pushes and
responses of any size.  Each kind of frame is unpacked by one lemma.  The parts of a large message, which are
split off at multiples of `MULTI_PART`, are followed by another one up to the last, and make the message when
they are put one after another.
-/

namespace Cluster.Core

open LittleEndian (toInt toInt_of_lt)

/-! ### Frames -/

/-- A frame whose header is the size of its body. -/
theorem frame_eq {sz : ℕ} {pieces : List (List UInt8)} (hsz : pieces.flatten.length = sz)
    (hlt : sz < 0x10000) :
  frame sz pieces = .ok (Framing.encode pieces.flatten)
  := by
  unfold frame fillHeader
  rw [if_pos hlt, ← hsz]
  rfl

@[simp]
theorem length_fillUint32 (n : ℕ) :
  (fillUint32 n).length = 4
  := LittleEndian.length_encode 4 n

theorem take_fillUint32 (n : ℕ) (rest : List UInt8) :
  (fillUint32 n ++ rest).take 4 = fillUint32 n
  := List.take_left' (length_fillUint32 n)

/-- A number is read back where it was written. -/
theorem unpackUint32_append {before : List UInt8} {i n : ℕ} (hi : before.length = i)
    (hn : n < 2 ^ 32) (rest : List UInt8) :
  unpackUint32 (before ++ (fillUint32 n ++ rest)) i = n
  := by
  rw [unpackUint32, List.drop_left' hi, take_fillUint32]
  exact LittleEndian.decode_encode hn

theorem uint32_of_lt {n : ℤ} (hnonneg : 0 ≤ n) (hlt : n < 2 ^ 32) :
  (uint32 n : ℤ) = n
  := by
  unfold uint32
  omega

theorem uint32_lt (n : ℤ) :
  uint32 n < 2 ^ 32
  := by
  unfold uint32
  omega

/-- The same of a number among the pieces of a body. -/
theorem unpackUint32_flatten (before rest : List (List UInt8)) {i n : ℕ}
    (hi : before.flatten.length = i) (hn : n < 2 ^ 32) :
  unpackUint32 (before ++ fillUint32 n :: rest).flatten i = n
  := by
  rw [List.flatten_append, List.flatten_cons]
  exact unpackUint32_append hi hn _

/-- What follows the pieces of a body. -/
theorem drop_flatten (before rest : List (List UInt8)) {i : ℕ} (hi : before.flatten.length = i) :
  (before ++ rest).flatten.drop i = rest.flatten
  := by
  rw [List.flatten_append, List.drop_left' hi]

/-! ### Requests -/

/-- The length of a body, piece by piece. -/
theorem length_pieces (x : List UInt8) (xs : List (List UInt8)) :
  (x :: xs).flatten.length = x.length + xs.flatten.length
  := by
  rw [List.flatten_cons, List.length_append]

/-- The length of a request to a number. -/
theorem length_number (t : UInt8) (a s : ℕ) (msg : List UInt8) :
  [[t], fillUint32 a, fillUint32 s, msg].flatten.length = msg.length + 9
  := by
  simp only [length_pieces, length_fillUint32, List.length_singleton, List.flatten_nil, List.length_nil]
  omega

/-- The length of a part of a request. -/
theorem length_part (t : UInt8) (s : ℕ) (msg : List UInt8) :
  [[t], fillUint32 s, msg].flatten.length = msg.length + 5
  := by
  simp only [length_pieces, length_fillUint32, List.length_singleton, List.flatten_nil, List.length_nil]
  omega

/-- The length of what a request to a name begins with. -/
theorem length_nameSession (t k : UInt8) (name : List UInt8) (s : ℕ) :
  [[t], [k], name, fillUint32 s].flatten.length = name.length + 6
  := by
  simp only [length_pieces, length_fillUint32, List.length_singleton, List.flatten_nil, List.length_nil]
  omega

/-- The length of a request to a name. -/
theorem length_named (t k : UInt8) (name : List UInt8) (s : ℕ) (msg : List UInt8) :
  [[t], [k], name, fillUint32 s, msg].flatten.length = msg.length + 6 + name.length
  := by
  simp only [length_pieces, length_fillUint32, List.length_singleton, List.flatten_nil, List.length_nil]
  omega

/-- The length of a response. -/
theorem length_response (s : ℕ) (t : UInt8) (msg : List UInt8) :
  [fillUint32 s, [t], msg].flatten.length = msg.length + 5
  := by
  simp only [length_pieces, length_fillUint32, List.length_singleton, List.flatten_nil, List.length_nil]
  omega

/-- A body fits an `int`. -/
theorem toInt_length {bs : List UInt8} {n : ℕ} (h : bs.length = n) (hn : n < 0x10000) :
  toInt bs.length = n
  := by
  rw [h]
  exact toInt_of_lt (by omega)

section

variable {a s : ℕ} {name msg : List UInt8}

theorem unpackrequest_number (ha : a < 2 ^ 32) (hs : s < 2 ^ 32) (hmsg : msg.length + 9 < 0x10000) :
  unpackrequest [[0], fillUint32 a, fillUint32 s, msg].flatten =
    .ok ⟨some (.number a), s, .bytes msg, false, s = 0⟩
  := by
  have hlength : [[0], fillUint32 a, fillUint32 s, msg].flatten.length = msg.length + 9 :=
    length_number 0 a s msg
  have haddr : unpackUint32 [[0], fillUint32 a, fillUint32 s, msg].flatten 1 = a :=
    unpackUint32_flatten [[0]] _ rfl ha
  have hsession : unpackUint32 [[0], fillUint32 a, fillUint32 s, msg].flatten 5 = s :=
    unpackUint32_flatten [[0], fillUint32 a] _ rfl hs
  have hrest : [[0], fillUint32 a, fillUint32 s, msg].flatten.drop 9 = msg :=
    (drop_flatten [[0], fillUint32 a, fillUint32 s] [msg] rfl).trans List.flatten_singleton
  have hsize : ¬ ((msg.length + 9 : ℕ) : ℤ) < 9 := by omega
  have htake : (((msg.length + 9 : ℕ) : ℤ) - 9).toNat = msg.length := by omega
  have htype : [[0], fillUint32 a, fillUint32 s, msg].flatten.headD 0 = 0 := rfl
  unfold unpackrequest
  rw [htype, if_pos rfl, toInt_length hlength hmsg, unpackreqNumber, if_neg hsize, haddr, hsession,
    hrest, htake, List.take_length]
  rfl

/-- The first frame of a large message to a handle. -/
theorem unpackrequest_multiNumber {n : ℕ} (ha : a < 2 ^ 32) (hs : s < 2 ^ 32) (hn : n < 2 ^ 32)
    (is_push : Bool) :
  unpackrequest [[if is_push then 0x41 else 1], fillUint32 a, fillUint32 s, fillUint32 n].flatten =
    .ok ⟨some (.number a), s, .size n, true, is_push⟩
  := by
  have hmulti (t : UInt8) :
      unpackmreqNumber [[t], fillUint32 a, fillUint32 s, fillUint32 n].flatten 13 is_push =
        .ok ⟨some (.number a), s, .size n, true, is_push⟩ := by
    have haddr : unpackUint32 [[t], fillUint32 a, fillUint32 s, fillUint32 n].flatten 1 = a :=
      unpackUint32_flatten [[t]] _ rfl ha
    have hsession : unpackUint32 [[t], fillUint32 a, fillUint32 s, fillUint32 n].flatten 5 = s :=
      unpackUint32_flatten [[t], fillUint32 a] _ rfl hs
    have hsize : unpackUint32 [[t], fillUint32 a, fillUint32 s, fillUint32 n].flatten 9 = n :=
      unpackUint32_flatten [[t], fillUint32 a, fillUint32 s] [] rfl hn
    rw [unpackmreqNumber, if_neg fun h => h rfl, haddr, hsession, hsize]
    rfl
  have hsz (t : UInt8) :
      toInt [[t], fillUint32 a, fillUint32 s, fillUint32 n].flatten.length = 13 :=
    toInt_length (n := 13) rfl (by decide)
  unfold unpackrequest
  cases is_push with
  | true =>
      rw [if_pos rfl, hsz 0x41]
      exact hmulti 0x41
  | false =>
      rw [if_neg Bool.false_ne_true, hsz 1]
      exact hmulti 1

/-- A part of a large message. -/
theorem unpackrequest_part (hs : s < 2 ^ 32) (hmsg : msg.length + 5 < 0x10000) (more : Bool) :
  unpackrequest [[if more then 2 else 3], fillUint32 s, msg].flatten =
    .ok ⟨none, s, .bytes msg, more, false⟩
  := by
  have hlength (t : UInt8) : [[t], fillUint32 s, msg].flatten.length = msg.length + 5 :=
    length_part t s msg
  have hpart (t : UInt8) : unpackmreqPart [[t], fillUint32 s, msg].flatten ((msg.length + 5 : ℕ) : ℤ) =
      .ok ⟨none, s, .bytes msg, t = 2, false⟩ := by
    have hsession : unpackUint32 [[t], fillUint32 s, msg].flatten 1 = s :=
      unpackUint32_flatten [[t]] _ rfl hs
    have hrest : [[t], fillUint32 s, msg].flatten.drop 5 = msg :=
      (drop_flatten [[t], fillUint32 s] [msg] rfl).trans List.flatten_singleton
    have hsize : ¬ ((msg.length + 5 : ℕ) : ℤ) < 5 := by omega
    have htake : (((msg.length + 5 : ℕ) : ℤ) - 5).toNat = msg.length := by omega
    rw [unpackmreqPart, if_neg hsize, hsession, hrest, htake, List.take_length]
    rfl
  have hsz (t : UInt8) := toInt_length (hlength t) hmsg
  unfold unpackrequest
  cases more with
  | true =>
      rw [if_pos rfl, hsz 2]
      exact hpart 2
  | false =>
      rw [if_neg Bool.false_ne_true, hsz 3]
      exact hpart 3

/-- What a body begins with whose address is a name. -/
theorem length_name (t k : UInt8) :
  [[t], [k], name].flatten.length = name.length + 2
  := by
  simp only [length_pieces, List.length_singleton, List.flatten_nil, List.length_nil]
  omega

theorem toNat_length (hname : name.length ≤ 255) :
  (UInt8.ofNat name.length).toNat = name.length
  := by
  rw [UInt8.toNat_ofNat']
  omega

theorem unpackrequest_string (hname : name.length ≤ 255) (hs : s < 2 ^ 32)
    (hmsg : msg.length + 6 + name.length < 0x10000) :
  unpackrequest [[0x80], [UInt8.ofNat name.length], name, fillUint32 s, msg].flatten =
    .ok ⟨some (.name name), s, .bytes msg, false, s = 0⟩
  := by
  have hstring (k : UInt8) (hk : k.toNat = name.length) :
      unpackrequest [[0x80], [k], name, fillUint32 s, msg].flatten =
        .ok ⟨some (.name name), s, .bytes msg, false, s = 0⟩ := by
    have hlength : [[0x80], [k], name, fillUint32 s, msg].flatten.length =
        msg.length + 6 + name.length := length_named 0x80 k name s msg
    have hbefore : [[0x80], [k], name, fillUint32 s].flatten.length = 2 + name.length + 4 := by
      rw [length_nameSession]
      omega
    have hnamesz : (([[0x80], [k], name, fillUint32 s, msg].flatten.drop 1).headD 0).toNat =
        name.length := hk
    have hname : ([[0x80], [k], name, fillUint32 s, msg].flatten.drop 2).take name.length = name :=
      List.take_left
    have hsession : unpackUint32 [[0x80], [k], name, fillUint32 s, msg].flatten (name.length + 2) = s :=
      unpackUint32_flatten [[0x80], [k], name] [msg] (length_name 0x80 k) hs
    have hrest : [[0x80], [k], name, fillUint32 s, msg].flatten.drop (2 + name.length + 4) = msg :=
      (drop_flatten [[0x80], [k], name, fillUint32 s] [msg] hbefore).trans List.flatten_singleton
    have hsmall : ¬ ((msg.length + 6 + name.length : ℕ) : ℤ) < 2 := by omega
    have hsize : ¬ ((msg.length + 6 + name.length : ℕ) : ℤ) < name.length + 6 := by omega
    have htake : (((msg.length + 6 + name.length : ℕ) : ℤ) - name.length - 6).toNat = msg.length := by
      omega
    have htype : [[0x80], [k], name, fillUint32 s, msg].flatten.headD 0 = 0x80 := rfl
    unfold unpackrequest
    rw [htype, toInt_length hlength hmsg]
    change unpackreqString _ _ = _
    rw [unpackreqString, if_neg hsmall, hnamesz, if_neg hsize, hsession, hname, hrest, htake,
      List.take_length]
    rfl
  exact hstring _ (toNat_length hname)

/-- The first frame of a large message to a name. -/
theorem unpackrequest_multiString {n : ℕ} (hname : name.length ≤ 255) (hs : s < 2 ^ 32)
    (hn : n < 2 ^ 32) (is_push : Bool) :
  unpackrequest [[if is_push then 0xc1 else 0x81], [UInt8.ofNat name.length], name, fillUint32 s,
      fillUint32 n].flatten = .ok ⟨some (.name name), s, .size n, true, is_push⟩
  := by
  have hmulti (t k : UInt8) (hk : k.toNat = name.length) :
      unpackmreqString [[t], [k], name, fillUint32 s, fillUint32 n].flatten
        ((10 + name.length : ℕ) : ℤ) is_push = .ok ⟨some (.name name), s, .size n, true, is_push⟩ := by
    have hbefore : [[t], [k], name, fillUint32 s].flatten.length = name.length + 6 :=
      length_nameSession t k name s
    have hnamesz : (([[t], [k], name, fillUint32 s, fillUint32 n].flatten.drop 1).headD 0).toNat =
        name.length := hk
    have hname : ([[t], [k], name, fillUint32 s, fillUint32 n].flatten.drop 2).take name.length =
        name := List.take_left
    have hsession : unpackUint32 [[t], [k], name, fillUint32 s, fillUint32 n].flatten
        (name.length + 2) = s :=
      unpackUint32_flatten [[t], [k], name] [fillUint32 n] (length_name t k) hs
    have hsize : unpackUint32 [[t], [k], name, fillUint32 s, fillUint32 n].flatten
        (name.length + 6) = n :=
      unpackUint32_flatten [[t], [k], name, fillUint32 s] [] hbefore hn
    have hsmall : ¬ ((10 + name.length : ℕ) : ℤ) < 2 := by omega
    have hfits : ¬ ((10 + name.length : ℕ) : ℤ) < name.length + 10 := by omega
    rw [unpackmreqString, if_neg hsmall, hnamesz, if_neg hfits, hsession, hname, hsize]
    rfl
  have hsz (t k : UInt8) : toInt [[t], [k], name, fillUint32 s, fillUint32 n].flatten.length =
      ((10 + name.length : ℕ) : ℤ) := by
    apply toInt_length _ (by omega)
    rw [length_named, length_fillUint32]
  unfold unpackrequest
  cases is_push with
  | true =>
      rw [if_pos rfl, hsz 0xc1]
      exact hmulti 0xc1 _ (toNat_length hname)
  | false =>
      rw [if_neg Bool.false_ne_true, hsz 0x81]
      exact hmulti 0x81 _ (toNat_length hname)

end

/-! ### Parts -/

/-- The parts of a large message, each with whether another one follows. -/
theorem splitParts_eq {n : ℕ} {msg : List UInt8} (hpos : 0 < msg.length)
    (hn : parts msg.length = n) :
  ∃ xs last, splitParts n msg = xs.map (fun x => (true, x)) ++ [(false, last)] ∧
    xs.flatten ++ last = msg ∧ ∀ x ∈ xs ++ [last], x.length ≤ MULTI_PART
  := by
  induction n generalizing msg with
  | zero => exact absurd hn (Nat.succ_ne_zero _)
  | succ n ih =>
      unfold parts MULTI_PART at hn
      rw [splitParts]
      by_cases hmore : msg.length > MULTI_PART
      · have hlength : (msg.drop MULTI_PART).length = msg.length - MULTI_PART := List.length_drop
        have hparts : parts (msg.drop MULTI_PART).length = n := by
          rw [hlength]
          unfold parts MULTI_PART at *
          omega
        obtain ⟨xs, last, hsplit, hflatten, hsizes⟩ := ih (by omega) hparts
        use msg.take MULTI_PART :: xs, last
        rw [if_pos hmore, hsplit, List.flatten_cons, List.append_assoc, hflatten,
          List.take_append_drop]
        use rfl, rfl
        intro x hx
        rcases List.mem_cons.mp hx with rfl | hx
        · exact List.length_take_le _ _
        · exact hsizes x hx
      · have hlast : n = 0 := by
          unfold MULTI_PART at hmore
          omega
        use [], msg
        rw [if_neg hmore, hlast, splitParts]
        use rfl, rfl
        intro x hx
        rw [List.mem_singleton.mp hx]
        exact Nat.le_of_not_lt hmore

theorem concatParts_eq {sz : ℕ} (hsz : sz < 2 ^ 31) (xs : List (List UInt8)) (buff : List UInt8)
    (h : buff.length + xs.flatten.length = sz) :
  concatParts sz (xs.map Data.bytes) buff = some (buff ++ xs.flatten)
  := by
  induction xs generalizing buff with
  | nil =>
      have hsize : ¬ (buff.length : ℤ) ≠ sz := by
        rw [List.flatten_nil, List.length_nil] at h
        omega
      rw [List.map_nil, concatParts, if_neg hsize, List.flatten_nil, List.append_nil]
      exact nofun
  | cons x xs ih =>
      rw [length_pieces] at h
      have hsize : ¬ (x.length + buff.length : ℤ) > (sz : ℤ) % 2 ^ 64 := by omega
      rw [List.map_cons, concatParts, if_neg hsize, ih (buff ++ x), List.append_assoc,
        List.flatten_cons]
      rw [List.length_append]
      omega

/-- The size and the parts of a message make the message. -/
theorem concat_eq {msg : List UInt8} (hmsg : msg.length < 2 ^ 31) {xs : List (List UInt8)}
    {last : List UInt8} (h : xs.flatten ++ last = msg) :
  concat (.size msg.length :: (xs ++ [last]).map Data.bytes) = some msg
  := by
  have hflatten : (xs ++ [last]).flatten = msg := by
    rw [List.flatten_append, List.flatten_singleton, h]
  rw [concat, toInt_of_lt hmsg, concatParts_eq hmsg (xs ++ [last]) [], hflatten, List.nil_append]
  rw [hflatten, List.length_nil, Nat.zero_add]

/-- The frames of the parts of a message, and what they are unpacked to. -/
theorem mapM_frames {γ δ : Type} (f : γ → Except PackError (List UInt8)) (body : γ → List UInt8)
    (R : List UInt8 → δ → Prop) (result : γ → δ) (l : List γ)
    (hf : ∀ x ∈ l, f x = .ok (Framing.encode (body x)) ∧ (body x).length < 0x10000 ∧
      R (body x) (result x)) :
  l.mapM f = .ok ((l.map body).map Framing.encode) ∧ (∀ b ∈ l.map body, b.length < 0x10000) ∧
    List.Forall₂ R (l.map body) (l.map result)
  := by
  induction l with
  | nil => exact ⟨rfl, nofun, .nil⟩
  | cons x l ih =>
      obtain ⟨hx, hsize, hR⟩ := hf x List.mem_cons_self
      obtain ⟨hl, hsizes, hRs⟩ := ih fun y hy => hf y (List.mem_cons_of_mem x hy)
      refine ⟨?_, ?_, .cons hR hRs⟩
      · rw [List.mapM_cons, hx, hl]
        rfl
      · intro b hb
        rcases List.mem_cons.mp hb with rfl | hb
        · exact hsize
        · exact hsizes b hb

/-! ### Whole messages -/

/-- The addresses that can be sent to. -/
def Address.Valid : Address → Prop
  | .number n => 0 ≤ n ∧ n < 2 ^ 32
  | .name s => 1 ≤ s.length ∧ s.length ≤ 255

/-- The frames of a request. -/
def PackedRequest.frames (packed : PackedRequest) : List (List UInt8) :=
  packed.request :: packed.padding.getD []

/-- The frames of a response. -/
def PackedResponse.frames : PackedResponse → List (List UInt8)
  | .string response => [response]
  | .table responses => responses

/-- The frames are bodies that are preceded by their sizes. -/
def Framed (frames bodies : List (List UInt8)) : Prop :=
  frames = bodies.map Framing.encode ∧ ∀ b ∈ bodies, b.length < 0x10000

/-- What is unpacked, frame by frame, makes a request: one that holds the message, or one that holds its size
and is followed by parts, which `concat` makes the message. -/
inductive Delivers (addr : Address) (session : ℤ) (msg : List UInt8) (is_push : Bool) :
    List Request → Prop
  | single {r : Request} (haddr : r.addr = some addr) (hmsg : r.msg = .bytes msg)
      (hpadding : r.padding = false) (hpush : r.is_push = is_push)
      (hsession : is_push = false → r.session = session) : Delivers addr session msg is_push [r]
  | multi {r last : Request} {rs : List Request} (haddr : r.addr = some addr)
      (hsession : r.session = session) (hpadding : r.padding = true) (hpush : r.is_push = is_push)
      (hparts : ∀ p ∈ rs ++ [last], p.addr = none ∧ p.session = session)
      (hmore : ∀ p ∈ rs, p.padding = true) (hlast : last.padding = false)
      (hconcat : concat ((r :: (rs ++ [last])).map Request.msg) = some msg) :
      Delivers addr session msg is_push (r :: (rs ++ [last]))

/-- What is unpacked makes a response, in the same way; the text of an error is cut. -/
inductive Answers (session : ℤ) (ok : Bool) (msg : List UInt8) : List Response → Prop
  | single {r : Response} (hsession : r.session = session) (hok : r.ok = ok)
      (hmsg : r.msg = .bytes (if ok then msg else msg.take MULTI_PART)) (hpadding : r.padding = false) :
      Answers session ok msg [r]
  | multi {r last : Response} {rs : List Response}
      (hparts : ∀ p ∈ r :: (rs ++ [last]), p.session = session ∧ p.ok = ok)
      (hmore : ∀ p ∈ r :: rs, p.padding = true) (hlast : last.padding = false)
      (hconcat : concat ((r :: (rs ++ [last])).map Response.msg) = some msg) :
      Answers session ok msg (r :: (rs ++ [last]))

section

variable {addr : Address} {session : ℤ} {msg : List UInt8}

/-- The frames of the parts of a message, when each part has a frame that is unpacked to `result`. -/
theorem parts_frames {δ : Type} (frameOf : Bool → List UInt8 → Except PackError (List UInt8))
    (body : Bool → List UInt8 → List UInt8) (R : List UInt8 → δ → Prop)
    (result : Bool → List UInt8 → δ)
    (hframe : ∀ more s, s.length ≤ MULTI_PART → frameOf more s = .ok (Framing.encode (body more s)) ∧
      (body more s).length < 0x10000 ∧ R (body more s) (result more s)) (hpos : 0 < msg.length) :
  ∃ (xs : List (List UInt8)) (last : List UInt8) (bodies : List (List UInt8)),
    (splitParts (parts msg.length) msg).mapM (fun (more, s) => frameOf more s) =
      .ok (bodies.map Framing.encode) ∧
    (∀ b ∈ bodies, b.length < 0x10000) ∧
    List.Forall₂ R bodies (xs.map (result true) ++ [result false last]) ∧ xs.flatten ++ last = msg
  := by
  obtain ⟨xs, last, hsplit, hflatten, hsizes⟩ := splitParts_eq hpos rfl
  have hpart (x : Bool × List UInt8) (hx : x ∈ splitParts (parts msg.length) msg) :
      x.2.length ≤ MULTI_PART := by
    rw [hsplit] at hx
    rcases List.mem_append.mp hx with hx | hx
    · obtain ⟨y, hy, rfl⟩ := List.mem_map.mp hx
      exact hsizes y (List.mem_append_left _ hy)
    · rw [List.mem_singleton.mp hx]
      exact hsizes last (List.mem_append_right _ (List.mem_singleton.mpr rfl))
  obtain ⟨hframes, hbodies, hresults⟩ := mapM_frames (fun x : Bool × List UInt8 => frameOf x.1 x.2)
    (fun x => body x.1 x.2) R (fun x => result x.1 x.2) (splitParts (parts msg.length) msg)
    fun x hx => hframe x.1 x.2 (hpart x hx)
  refine ⟨xs, last, _, hframes, hbodies, ?_, hflatten⟩
  have hmap : (splitParts (parts msg.length) msg).map (fun x => result x.1 x.2) =
      xs.map (result true) ++ [result false last] := by
    rw [hsplit, List.map_append, List.map_map]
    rfl
  rw [hmap] at hresults
  exact hresults

/-- The frames of the parts of a request. -/
theorem packreqMulti_frames (hpos : 0 < msg.length) (session : ℤ) :
  ∃ (xs : List (List UInt8)) (last : List UInt8) (bodies : List (List UInt8)),
    packreqMulti (parts msg.length) session msg = .ok (bodies.map Framing.encode) ∧
    (∀ b ∈ bodies, b.length < 0x10000) ∧
    List.Forall₂ (fun b r => unpackrequest b = .ok r) bodies
      (xs.map (fun x => ⟨none, uint32 session, .bytes x, true, false⟩) ++
        [⟨none, uint32 session, .bytes last, false, false⟩]) ∧ xs.flatten ++ last = msg
  := by
  apply parts_frames
    (fun more s => frame (s.length + 5) [[if more then 2 else 3], fillUint32 (uint32 session), s])
    (fun more s => [[if more then 2 else 3], fillUint32 (uint32 session), s].flatten)
    (fun b r => unpackrequest b = .ok r)
    (fun more s => ⟨none, uint32 session, .bytes s, more, false⟩) _ hpos
  intro more x hx
  have hlt : x.length + 5 < 0x10000 := by
    unfold MULTI_PART at hx
    omega
  have hlength : [[if more then 2 else 3], fillUint32 (uint32 session), x].flatten.length =
      x.length + 5 := length_part _ _ x
  use frame_eq hlength hlt
  rw [hlength]
  exact ⟨hlt, unpackrequest_part (uint32_lt session) hlt more⟩

/-- A message that fits one frame. -/
theorem firstFrame_small (haddr : addr.Valid) (hsession : 1 ≤ session) (hsession' : session < 2 ^ 31)
    (hmsg : msg.length < MULTI_PART) (is_push : Bool) :
  ∃ body, firstFrame addr session msg is_push = .ok (Framing.encode body, 0) ∧
    body.length < 0x10000 ∧ unpackrequest body =
      .ok ⟨some addr, if is_push then 0 else uint32 session, .bytes msg, false, is_push⟩
  := by
  have hlt : (if is_push then 0 else uint32 session) < 2 ^ 32 := by
    split_ifs
    · decide
    · exact uint32_lt session
  have hpush : decide ((if is_push then 0 else uint32 session) = 0) = is_push := by
    have hne : uint32 session ≠ 0 := by
      have hint := uint32_of_lt (n := session) (by omega) (by omega)
      omega
    cases is_push with
    | true => rfl
    | false => exact decide_eq_false hne
  have hmsg' : msg.length < 0x8000 := hmsg
  cases addr with
  | number n =>
      have hsize : msg.length + 9 < 0x10000 := by omega
      have hunpack := unpackrequest_number (uint32_lt n) hlt hsize
      rw [uint32_of_lt haddr.1 haddr.2, hpush] at hunpack
      have hlength : [[0], fillUint32 (uint32 n), fillUint32 (if is_push then 0 else uint32 session),
          msg].flatten.length = msg.length + 9 := length_number 0 _ _ msg
      refine ⟨_, ?_, ?_, hunpack⟩
      · rw [firstFrame, packreqNumber, if_pos hmsg, frame_eq hlength hsize]
        rfl
      · rw [hlength]
        exact hsize
  | name s =>
      have hfits : s.length ≤ 255 := haddr.2
      have hsize : msg.length + 6 + s.length < 0x10000 := by omega
      have hunpack := unpackrequest_string hfits hlt hsize
      rw [hpush] at hunpack
      have hlength : [[0x80], [UInt8.ofNat s.length], s,
          fillUint32 (if is_push then 0 else uint32 session), msg].flatten.length =
          msg.length + 6 + s.length := length_named 0x80 _ s _ msg
      have hname : ¬ (s.length < 1 ∨ s.length > 255) := by
        have hnonempty : 1 ≤ s.length := haddr.1
        omega
      refine ⟨_, ?_, ?_, hunpack⟩
      · rw [firstFrame, packreqString, if_neg hname, if_pos hmsg, frame_eq hlength hsize]
        rfl
      · rw [hlength]
        exact hsize

/-- The first frame of a large message. -/
theorem firstFrame_large (haddr : addr.Valid) (session : ℤ) (hmsg : ¬ msg.length < MULTI_PART)
    (hmsg' : msg.length < 2 ^ 31) (is_push : Bool) :
  ∃ body, firstFrame addr session msg is_push = .ok (Framing.encode body, parts msg.length) ∧
    body.length < 0x10000 ∧ unpackrequest body =
      .ok ⟨some addr, uint32 session, .size msg.length, true, is_push⟩
  := by
  have hn : msg.length < 2 ^ 32 := by omega
  cases addr with
  | number n =>
      have hunpack := unpackrequest_multiNumber (uint32_lt n) (uint32_lt session) hn is_push
      rw [uint32_of_lt haddr.1 haddr.2] at hunpack
      have hlength : [[if is_push then 0x41 else 1], fillUint32 (uint32 n), fillUint32 (uint32 session),
          fillUint32 msg.length].flatten.length = 13 := rfl
      refine ⟨_, ?_, ?_, hunpack⟩
      · rw [firstFrame, packreqNumber, if_neg hmsg, frame_eq hlength (by decide)]
        rfl
      · rw [hlength]
        decide
  | name s =>
      have hfits : s.length ≤ 255 := haddr.2
      have hunpack := unpackrequest_multiString hfits (uint32_lt session) hn is_push
      have hlength : [[if is_push then 0xc1 else 0x81], [UInt8.ofNat s.length], s,
          fillUint32 (uint32 session), fillUint32 msg.length].flatten.length = 10 + s.length := by
        rw [length_named, length_fillUint32]
      have hname : ¬ (s.length < 1 ∨ s.length > 255) := by
        have hnonempty : 1 ≤ s.length := haddr.1
        omega
      have hlt : 10 + s.length < 0x10000 := by omega
      refine ⟨_, ?_, ?_, hunpack⟩
      · rw [firstFrame, packreqString, if_neg hname, if_neg hmsg, frame_eq hlength hlt]
        rfl
      · rw [hlength]
        exact hlt

/-- Packing a request of a size and a session in range. -/
theorem packrequest_eq (hsession : 1 ≤ session) (hsession' : session < 2 ^ 31)
    (hmsg : msg.length < 2 ^ 31) (is_push : Bool) :
  packrequest addr session (some msg) is_push = (do
    let (request, multipak) ← firstFrame addr session msg is_push
    let next_session := if toInt (session + 1) < 0 then 1 else session + 1
    if multipak ≠ 0 then
      let padding ← packreqMulti multipak session msg
      return ⟨request, next_session, some padding⟩
    else return ⟨request, next_session, none⟩)
  := by
  have hint : toInt session = session := by
    have hnat := toInt_of_lt (n := session.toNat) (by omega)
    rwa [Int.toNat_of_nonneg (by omega)] at hnat
  have hsize : uint32 msg.length = msg.length := by
    unfold uint32
    omega
  have hpos : ¬ session ≤ 0 := by omega
  unfold packrequest
  simp only [hint, hsize, List.take_length, if_neg hpos]

theorem packrequest_of_small (hsession : 1 ≤ session) (hsession' : session < 2 ^ 31)
    (hmsg : msg.length < 2 ^ 31) {is_push : Bool} {request : List UInt8}
    (hframe : firstFrame addr session msg is_push = .ok (request, 0)) :
  packrequest addr session (some msg) is_push =
    .ok ⟨request, if toInt (session + 1) < 0 then 1 else session + 1, none⟩
  := by
  rw [packrequest_eq hsession hsession' hmsg, hframe]
  rfl

theorem packrequest_of_large (hsession : 1 ≤ session) (hsession' : session < 2 ^ 31)
    (hmsg : msg.length < 2 ^ 31) {is_push : Bool} {request : List UInt8} {n : ℕ}
    {padding : List (List UInt8)} (hframe : firstFrame addr session msg is_push = .ok (request, n + 1))
    (hparts : packreqMulti (n + 1) session msg = .ok padding) :
  packrequest addr session (some msg) is_push =
    .ok ⟨request, if toInt (session + 1) < 0 then 1 else session + 1, some padding⟩
  := by
  rw [packrequest_eq hsession hsession' hmsg, hframe]
  change (packreqMulti (n + 1) session msg >>= _) = _
  rw [hparts]
  rfl

/-- Requests and pushes. -/
theorem request_delivered (haddr : addr.Valid) (hsession : 1 ≤ session) (hsession' : session < 2 ^ 31)
    (hmsg : msg.length < 2 ^ 31) (is_push : Bool) :
  ∃ packed bodies requests, packrequest addr session (some msg) is_push = .ok packed ∧
    Framed packed.frames bodies ∧ List.Forall₂ (fun b r => unpackrequest b = .ok r) bodies requests ∧
    Delivers addr session msg is_push requests
  := by
  have hint : (uint32 session : ℤ) = session := uint32_of_lt (by omega) (by omega)
  by_cases hsmall : msg.length < MULTI_PART
  · obtain ⟨body, hframe, hsize, hunpack⟩ :=
      firstFrame_small haddr hsession hsession' hsmall is_push
    refine ⟨_, [body], [_], packrequest_of_small hsession hsession' hmsg hframe, ⟨rfl, ?_⟩,
      .cons hunpack .nil, .single rfl rfl rfl rfl ?_⟩
    · intro b hb
      rw [List.mem_singleton.mp hb]
      exact hsize
    · intro hno
      rw [hno]
      exact hint
  · have hpos : 0 < msg.length := Nat.lt_of_lt_of_le (by decide) (Nat.le_of_not_lt hsmall)
    obtain ⟨body, hframe, hsize, hunpack⟩ := firstFrame_large haddr session hsmall hmsg is_push
    obtain ⟨xs, last, bodies, hparts, hsizes, hresults, hflatten⟩ := packreqMulti_frames hpos session
    have hconcat := concat_eq hmsg hflatten
    rw [List.map_append] at hconcat
    refine ⟨_, body :: bodies, _, packrequest_of_large hsession hsession' hmsg hframe hparts, ⟨rfl, ?_⟩,
      .cons hunpack hresults, .multi rfl hint rfl rfl ?_ ?_ rfl ?_⟩
    · intro b hb
      rcases List.mem_cons.mp hb with rfl | hb
      · exact hsize
      · exact hsizes b hb
    · intro p hp
      rcases List.mem_append.mp hp with hp | hp
      · obtain ⟨x, -, rfl⟩ := List.mem_map.mp hp
        exact ⟨rfl, hint⟩
      · rw [List.mem_singleton.mp hp]
        exact ⟨rfl, hint⟩
    · intro p hp
      obtain ⟨x, -, rfl⟩ := List.mem_map.mp hp
      rfl
    · rw [List.map_cons, List.map_append, List.map_map]
      exact hconcat

/-! ### Responses -/

/-- A frame of a response that holds bytes. -/
theorem unpackresponse_bytes {s : ℕ} (hs : s < 2 ^ 32) (t : UInt8) :
  unpackresponse [fillUint32 s, [t], msg].flatten =
    if t = 0 then some ⟨s, false, .bytes msg, false⟩
    else if t = 1 ∨ t = 4 then some ⟨s, true, .bytes msg, false⟩
    else if t = 2 then
      if msg.length + 5 ≠ 9 then none
      else some ⟨s, true, .size (unpackUint32 [fillUint32 s, [t], msg].flatten 5), true⟩
    else if t = 3 then some ⟨s, true, .bytes msg, true⟩
    else none
  := by
  have hlength : [fillUint32 s, [t], msg].flatten.length = msg.length + 5 := length_response s t msg
  have hsession : unpackUint32 [fillUint32 s, [t], msg].flatten 0 = s :=
    unpackUint32_flatten [] _ rfl hs
  have htype : ([fillUint32 s, [t], msg].flatten.drop 4).headD 0 = t :=
    congrArg (fun bs : List UInt8 => bs.headD 0) (drop_flatten [fillUint32 s] [[t], msg] rfl)
  have hrest : [fillUint32 s, [t], msg].flatten.drop 5 = msg :=
    (drop_flatten [fillUint32 s, [t]] [msg] rfl).trans List.flatten_singleton
  have hsize : ¬ msg.length + 5 < 5 := by omega
  rw [unpackresponse, hlength, if_neg hsize, hsession, htype, hrest]

/-- The frames of the parts of a response. -/
theorem responses_frames (hpos : 0 < msg.length) (session : ℤ) :
  ∃ (xs : List (List UInt8)) (last : List UInt8) (bodies : List (List UInt8)),
    (splitParts (parts msg.length) msg).mapM (fun (more, s) =>
      frame (s.length + 5) [fillUint32 (uint32 session), [if more then 3 else 4], s]) =
      .ok (bodies.map Framing.encode) ∧
    (∀ b ∈ bodies, b.length < 0x10000) ∧
    List.Forall₂ (fun b r => unpackresponse b = some r) bodies
      (xs.map (fun x => ⟨uint32 session, true, .bytes x, true⟩) ++
        [⟨uint32 session, true, .bytes last, false⟩]) ∧ xs.flatten ++ last = msg
  := by
  apply parts_frames
    (fun more s => frame (s.length + 5) [fillUint32 (uint32 session), [if more then 3 else 4], s])
    (fun more s => [fillUint32 (uint32 session), [if more then 3 else 4], s].flatten)
    (fun b r => unpackresponse b = some r)
    (fun more s => ⟨uint32 session, true, .bytes s, more⟩) _ hpos
  intro more x hx
  have hlt : x.length + 5 < 0x10000 := by
    unfold MULTI_PART at hx
    omega
  have hlength : [fillUint32 (uint32 session), [if more then 3 else 4], x].flatten.length =
      x.length + 5 := length_response _ _ x
  use frame_eq hlength hlt
  rw [hlength, unpackresponse_bytes (uint32_lt session)]
  use hlt
  cases more <;> rfl

/-- The first frame of a large message. -/
theorem unpackresponse_size {s n : ℕ} (hs : s < 2 ^ 32) (hn : n < 2 ^ 32) :
  unpackresponse [fillUint32 s, [2], fillUint32 n].flatten = some ⟨s, true, .size n, true⟩
  := by
  have hsize : unpackUint32 [fillUint32 s, [2], fillUint32 n].flatten 5 = n :=
    unpackUint32_flatten [fillUint32 s, [2]] [] rfl hn
  rw [unpackresponse_bytes hs, hsize]
  rfl

/-- A response that is one frame. -/
theorem packresponse_single (session : ℤ) {ok : Bool} (hsingle : ¬ (ok ∧ msg.length > MULTI_PART)) :
  ∃ body, packresponse session ok msg = .ok (.string (Framing.encode body)) ∧
    body.length < 0x10000 ∧ unpackresponse body =
      some ⟨uint32 session, ok, .bytes (if ok then msg else msg.take MULTI_PART), false⟩
  := by
  have hcut : (if msg.length > MULTI_PART then msg.take MULTI_PART else msg) =
      if ok then msg else msg.take MULTI_PART := by
    cases ok with
    | true => rw [if_neg fun h => hsingle ⟨rfl, h⟩, if_pos rfl]
    | false =>
        rw [if_neg Bool.false_ne_true]
        split_ifs with hlarge
        · rfl
        · rw [List.take_of_length_le (Nat.le_of_not_lt hlarge)]
  have hlength : (if ok then msg else msg.take MULTI_PART).length ≤ MULTI_PART := by
    rw [← hcut]
    split_ifs with hlarge
    · exact List.length_take_le _ _
    · exact Nat.le_of_not_lt hlarge
  generalize (if ok then msg else msg.take MULTI_PART) = text at hcut hlength
  have hlt : text.length + 5 < 0x10000 := by
    unfold MULTI_PART at hlength
    omega
  have hbody : [fillUint32 (uint32 session), [if ok then 1 else 0], text].flatten.length =
      text.length + 5 := length_response _ _ text
  refine ⟨_, ?_, hbody.trans_lt hlt, ?_⟩
  · unfold packresponse
    rw [if_neg hsingle, hcut]
    change (frame (text.length + 5) _ >>= _) = _
    rw [frame_eq hbody hlt]
    rfl
  · rw [unpackresponse_bytes (uint32_lt session)]
    cases ok <;> rfl

/-- A response that is a table of frames. -/
theorem packresponse_table {session : ℤ} {body : List UInt8} {bodies : List (List UInt8)}
    (hlarge : msg.length > MULTI_PART)
    (hfirst : frame 9 [fillUint32 (uint32 session), [2], fillUint32 (uint32 msg.length)] =
      .ok (Framing.encode body))
    (hparts : (splitParts (parts msg.length) msg).mapM (fun (more, s) =>
      frame (s.length + 5) [fillUint32 (uint32 session), [if more then 3 else 4], s]) =
      .ok (bodies.map Framing.encode)) :
  packresponse session true msg = .ok (.table ((body :: bodies).map Framing.encode))
  := by
  unfold packresponse
  rw [if_pos ⟨rfl, hlarge⟩, hfirst]
  change ((splitParts (parts msg.length) msg).mapM (fun (more, s) =>
    frame (s.length + 5) [fillUint32 (uint32 session), [if more then 3 else 4], s]) >>= _) = _
  rw [hparts]
  rfl

/-- Responses. -/
theorem response_answered (hsession : 1 ≤ session) (hsession' : session < 2 ^ 31)
    (hmsg : msg.length < 2 ^ 31) (ok : Bool) :
  ∃ packed bodies responses, packresponse session ok msg = .ok packed ∧
    Framed packed.frames bodies ∧
    List.Forall₂ (fun b r => unpackresponse b = some r) bodies responses ∧
    Answers session ok msg responses
  := by
  have hint : (uint32 session : ℤ) = session := uint32_of_lt (by omega) (by omega)
  by_cases hlarge : ok ∧ msg.length > MULTI_PART
  · obtain ⟨rfl, hlarge⟩ := hlarge
    have hpos : 0 < msg.length := Nat.lt_trans (by decide) hlarge
    have hsize : uint32 msg.length = msg.length := by
      unfold uint32
      omega
    have hbody : [fillUint32 (uint32 session), [2], fillUint32 (uint32 msg.length)].flatten.length = 9 :=
      rfl
    have hfirst := frame_eq hbody (by decide)
    have hunpack := unpackresponse_size (uint32_lt session) (uint32_lt msg.length)
    obtain ⟨xs, last, bodies, hparts, hsizes, hresults, hflatten⟩ := responses_frames hpos session
    have hconcat := concat_eq hmsg hflatten
    rw [List.map_append] at hconcat
    refine ⟨_, _ :: bodies, _, packresponse_table hlarge hfirst hparts, ⟨rfl, ?_⟩,
      .cons hunpack hresults, .multi ?_ ?_ rfl ?_⟩
    · intro b hb
      rcases List.mem_cons.mp hb with rfl | hb
      · rw [hbody]
        decide
      · exact hsizes b hb
    · intro p hp
      rcases List.mem_cons.mp hp with rfl | hp
      · exact ⟨hint, rfl⟩
      · rcases List.mem_append.mp hp with hp | hp
        · obtain ⟨x, -, rfl⟩ := List.mem_map.mp hp
          exact ⟨hint, rfl⟩
        · rw [List.mem_singleton.mp hp]
          exact ⟨hint, rfl⟩
    · intro p hp
      rcases List.mem_cons.mp hp with rfl | hp
      · rfl
      · obtain ⟨x, -, rfl⟩ := List.mem_map.mp hp
        rfl
    · rw [List.map_cons, List.map_append, List.map_map, hsize]
      exact hconcat
  · obtain ⟨body, hpack, hsize, hunpack⟩ := packresponse_single session hlarge
    refine ⟨_, [body], [_], hpack, ⟨rfl, ?_⟩, .cons hunpack .nil, .single hint rfl rfl rfl⟩
    intro b hb
    rw [List.mem_singleton.mp hb]
    exact hsize

/-- Messages of any size are unpacked as they were packed: requests and pushes, and responses. -/
theorem frames_round_trip (haddr : addr.Valid) (hsession : 1 ≤ session) (hsession' : session < 2 ^ 31)
    (hmsg : msg.length < 2 ^ 31) (is_push ok : Bool) :
  (∃ packed bodies requests, packrequest addr session (some msg) is_push = .ok packed ∧
    Framed packed.frames bodies ∧ List.Forall₂ (fun b r => unpackrequest b = .ok r) bodies requests ∧
    Delivers addr session msg is_push requests) ∧
  (∃ packed bodies responses, packresponse session ok msg = .ok packed ∧
    Framed packed.frames bodies ∧
    List.Forall₂ (fun b r => unpackresponse b = some r) bodies responses ∧
    Answers session ok msg responses)
  := ⟨request_delivered haddr hsession hsession' hmsg is_push,
    response_answered hsession hsession' hmsg ok⟩

end

/-- A message of three parts. -/
def threeParts : List UInt8 :=
  List.replicate 0x10001 7

/-- A push to a name and a response, both in parts. -/
theorem frames_round_trip_threeParts :
  (∃ packed bodies requests, packrequest (.name [0x61]) 1 (some threeParts) true = .ok packed ∧
    Framed packed.frames bodies ∧ List.Forall₂ (fun b r => unpackrequest b = .ok r) bodies requests ∧
    Delivers (.name [0x61]) 1 threeParts true requests) ∧
  (∃ packed bodies responses, packresponse 1 true threeParts = .ok packed ∧
    Framed packed.frames bodies ∧
    List.Forall₂ (fun b r => unpackresponse b = some r) bodies responses ∧
    Answers 1 true threeParts responses)
  := by
  have haddr : (Address.name [0x61]).Valid := ⟨by decide, by decide⟩
  have hlength : threeParts.length < 2 ^ 31 := by
    rw [threeParts, List.length_replicate]
    decide
  exact frames_round_trip haddr (by decide) (by decide) hlength true true

end Cluster.Core
