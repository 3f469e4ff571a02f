import FWServer.Msgpack.Pack

/-!
# The server side of the handshake

A server that has been started receives any sequence of decoded messages from its peer.  A
table that does not fit resets the handshake and erases the protocol the start installed, so
a handshake that completes negotiates encryption precisely when no table was rejected on the
way.
-/

open Lua

namespace Pack

/-- The table opens a handshake. -/
def isHello (t : Table) : Bool :=
  isClient 0 t && t.get (.str "proto") = checknotip

/-- The table confirms a handshake. -/
def isConfirm (t : Table) : Bool :=
  isClient 0 t && t.get (.str "state") = .num 2 && t.get (.str "proto") = checknotip

/-- A server has no server as its peer. -/
@[simp]
theorem isServer_zero (t : Table) :
  isServer 0 t = false
  := by
  simp [isServer]

/-- What a server makes of a handshake table: it opens or completes the handshake, or resets
it. -/
theorem recvhandshake_server (nowt : ℤ) (t : Table) (s : State) :
  recvhandshake 0 nowt t s =
    if s.mState = .num 1 ∧ isHello t then
      ({ s with mState := .num 2 },
        [.send (sendhandshake 0 nowt checknotip (.num 2) { s with mState := .num 2 })])
    else if s.mState = .num 2 ∧ isConfirm t then
      ({ s with mState := .num 3 },
        [.send (sendhandshake 0 nowt s.mProto (.num 3) s), .endfunc])
    else reset s
  := by
  simp only [recvhandshake, isServer_zero, isHello, isConfirm, Bool.and_eq_true,
    decide_eq_true_eq]
  by_cases h1 : s.mState = .num 1
  · have h2 : s.mState ≠ .num 2 := by
      rw [h1]
      decide
    by_cases hc : isClient 0 t = true
    · by_cases hp : t.get (.str "proto") = checknotip
      · simp [h1, hc, hp]
      · simp [h1, hc, hp]
    · simp [h1, hc]
  · by_cases h2 : s.mState = .num 2
    · by_cases hc : isClient 0 t = true
      · simp [h2, hc]
      · simp [h2, hc]
    · simp [h1, h2]

namespace Server

/-- A server end and the number of calls of `m_endfunc` so far. -/
structure State where
  pack : Pack.State
  ended : ℕ

/-- The number of calls of `m_endfunc` among outputs. -/
def endfuncs (out : List Output) : ℕ :=
  out.countP fun o => o matches .endfunc

/-- The effect of a message that arrives at the time `l.1`. -/
def apply (s : State) (l : ℤ × Msg) : State :=
  let (pack, out) := executeMsg 0 l.1 l.2 s.pack
  ⟨pack, s.ended + endfuncs out⟩

/-- A server just started, with the key `ckey`. -/
def started (ckey : Value) : State :=
  ⟨(start 0 0 ckey).1, 0⟩

/-- The machine of all sequences of messages. -/
def machine (ckey : Value) : Machine State (ℤ × Msg) where
  init s := s = started ckey
  step s l := some (apply s l)

/-- The server after a sequence of messages. -/
def run (ckey : Value) (ls : List (ℤ × Msg)) : State :=
  ls.foldl apply (started ckey)

/-- The message is not rejected: the handshake is over, the message is no table, or the table
fits. -/
def Accepted (s : State) (l : ℤ × Msg) : Prop :=
  s.pack.mState = .num 3 ∨
    match l.2 with
    | .val _ => True
    | .tab t =>
        s.pack.mState = .num 1 ∧ isHello t = true ∨ s.pack.mState = .num 2 ∧ isConfirm t = true

/-- What holds of a server with the key `ckey` when `kept` says whether every message so far was
accepted. -/
structure Inv (ckey : Value) (kept : Prop) (s : State) : Prop where
  phase : s.pack.mState = .num 1 ∨ s.pack.mState = .num 2 ∨ s.pack.mState = .num 3
  ckey : s.pack.mCkey = ckey
  ended : s.ended = if s.pack.mState = .num 3 then 1 else 0
  proto : s.pack.mProto = netcheckpackflag ↔ kept

theorem Inv.started (ckey : Value) :
  Inv ckey True (started ckey)
  where
  phase := .inl rfl
  ckey := rfl
  ended := rfl
  proto := iff_of_true rfl trivial

/-- After the handshake a message changes nothing. -/
theorem apply_of_done {s : State} (h : s.pack.mState = .num 3) (l : ℤ × Msg) :
  apply s l = s
  := by
  simp [apply, executeMsg, h, endfuncs]

/-- A message keeps the invariant. -/
theorem Inv.apply {ckey : Value} {kept : Prop} {s : State} (h : Inv ckey kept s)
    (l : ℤ × Msg) :
  Inv ckey (kept ∧ Accepted s l) (apply s l)
  := by
  by_cases h3 : s.pack.mState = .num 3
  · rw [apply_of_done h3]
    exact ⟨h.phase, h.ckey, h.ended, h.proto.trans (and_iff_left (.inl h3)).symm⟩
  · have hended : s.ended = 0 := h.ended.trans (if_neg h3)
    obtain ⟨nowt, v | t⟩ := l
    · simp only [Server.apply, executeMsg, if_neg h3, recvhandshake_server]
      by_cases h1 : s.pack.mState = .num 1 ∧ isHello v
      · have haccepted : Accepted s (nowt, .tab v) := .inr (.inl h1)
        simp only [if_pos h1, endfuncs]
        exact ⟨.inr (.inl rfl), h.ckey, hended, h.proto.trans (and_iff_left haccepted).symm⟩
      · by_cases h2 : s.pack.mState = .num 2 ∧ isConfirm v
        · have haccepted : Accepted s (nowt, .tab v) := .inr (.inr h2)
          simp only [if_neg h1, if_pos h2, endfuncs]
          refine ⟨.inr (.inr rfl), h.ckey, ?_, h.proto.trans (and_iff_left haccepted).symm⟩
          simp [hended]
        · have hrejected : ¬ Accepted s (nowt, .tab v) := by
            rintro (h' | h' | h')
            · apply h3 h'
            · apply h1 h'
            · apply h2 h'
          simp only [if_neg h1, if_neg h2, reset, endfuncs]
          have hproto : (.str "" : Value) ≠ netcheckpackflag := by decide
          exact ⟨.inl rfl, h.ckey, hended, iff_of_false hproto fun h' => hrejected h'.2⟩
    · simp only [Server.apply, executeMsg, if_neg h3, endfuncs]
      exact ⟨h.phase, h.ckey, h.ended, h.proto.trans (and_iff_left (.inr trivial)).symm⟩

/-- A sequence of messages keeps the invariant. -/
theorem Inv.foldl {ckey : Value} {kept : Prop} {s : State} (h : Inv ckey kept s)
    (ls : List (ℤ × Msg)) :
  Inv ckey (kept ∧ (machine ckey).Guarded Accepted s ls) (ls.foldl Server.apply s)
  := by
  induction ls generalizing kept s with
  | nil =>
      exact ⟨h.phase, h.ckey, h.ended, h.proto.trans (and_iff_left trivial).symm⟩
  | cons l ls ih =>
      have hrest := ih (h.apply l)
      refine ⟨hrest.phase, hrest.ckey, hrest.ended, hrest.proto.trans ?_⟩
      rw [and_assoc]
      apply and_congr_right'
      constructor
      · rintro hg s' hst
        obtain rfl := Option.some.inj hst
        exact hg
      · intro hg
        apply hg _ rfl

/-- After any sequence of messages `m_endfunc` has been called once if the handshake is over
and not at all before, and the handshake stays over.  When it is over, messages are encrypted
with the key of the server precisely when no message was rejected before. -/
theorem encrypted_iff_accepted (ckey : Value) (ls : List (ℤ × Msg)) :
  let s := run ckey ls
  s.ended = (if s.pack.mState = .num 3 then 1 else 0) ∧
  (s.pack.mState = .num 3 → ∀ l, (apply s l).pack.mState = .num 3) ∧
  (s.pack.mState = .num 3 →
    (s.pack.mProto = netcheckpackflag ∧ key s.pack = .ckey ckey
      ↔ (machine ckey).Guarded Accepted (started ckey) ls))
  := by
  intro s
  have h : Inv ckey (True ∧ _) s := (Inv.started ckey).foldl ls
  refine ⟨h.ended, fun h3 l => ?_, fun h3 => ?_⟩
  · rw [apply_of_done h3]
    apply h3
  · rw [true_and] at h
    rw [← h.proto]
    apply and_iff_left_of_imp
    intro hproto
    simp [key, h3, hproto, h.ckey]

/-- A peer that sends a table with a wrong protocol first and shakes hands afterwards ends up
with a connection that is not encrypted. -/
theorem rejected_then_plain :
  let hello := Table.ofFields [("isclient", .num 1), ("proto", checknotip)]
  let confirm := Table.ofFields [("isclient", .num 1), ("proto", checknotip), ("state", .num 2)]
  let wrong := Table.ofFields [("isclient", .num 1), ("proto", .str "http")]
  let s := run (.str "key") [(0, .tab wrong), (1, .tab hello), (2, .tab confirm)]
  s.pack.mState = .num 3 ∧ s.pack.mProto ≠ netcheckpackflag ∧ key s.pack = .plain
  := by
  decide

end Server

end Pack
