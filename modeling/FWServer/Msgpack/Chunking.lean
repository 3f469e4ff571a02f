import FWServer.Msgpack.Dispatch
import FWServer.Msgpack.Handshake
import FWServer.Msgpack.Reassembly
import Mathlib.Data.List.TakeWhile

/-!
# Messages and chunks

How the bytes of a connection are divided into chunks decides which packages are executed one by one and
which together.  Packages that come together lose the messages that count as false, and where one of them
raises an error, the messages before it; those after it stay in the queue.

So the division makes no difference precisely when there is at most one package, when no package raises
an error and none holds `false`, or when there are no messages up to the first error and no package after
it has an effect.
-/

open Lua Pack Netpack Framing

namespace Dispatch

variable (decode : Decode) (nowt : ℤ)

/-! ### Packages one by one -/

/-- A package is executed. -/
def perform (p : List UInt8) (s : Session) : Session × Option Msg :=
  executeMsg decode nowt p p.length s

/-- The session after packages that are executed one by one. -/
def after (s : Session) : List (List UInt8) → Session
  | [] => s
  | p :: ps => after (perform decode nowt p s).1 ps

/-- The messages of packages that are executed one by one. -/
def messages (s : Session) : List (List UInt8) → List Msg
  | [] => []
  | p :: ps =>
      iterated (perform decode nowt p s).2.toList ++ messages (perform decode nowt p s).1 ps

/-- No package raises an error, and none holds `false`. -/
def Smooth (s : Session) : List (List UInt8) → Prop
  | [] => True
  | p :: ps =>
      match (perform decode nowt p s).2 with
      | none => False
      | some r => r ≠ .val (.bool false) ∧ Smooth (perform decode nowt p s).1 ps

/-- The package has no effect. -/
def Inert (s : Session) (p : List UInt8) : Prop :=
  (perform decode nowt p s).1 = s ∧
    ((perform decode nowt p s).2 = none ∨ (perform decode nowt p s).2 = some (.val .nil))

/-- There are no messages up to the first error, and no package after it has an effect. -/
def Silent (s : Session) : List (List UInt8) → Prop
  | [] => True
  | p :: ps =>
      match (perform decode nowt p s).2 with
      | none => ∀ p' ∈ ps, Inert decode nowt s p'
      | some r => r = .val .nil ∧ Silent (perform decode nowt p s).1 ps

/-- The session after the first error. -/
def stop (s : Session) : List (List UInt8) → Session
  | [] => s
  | p :: ps =>
      match (perform decode nowt p s).2 with
      | none => s
      | some _ => stop (perform decode nowt p s).1 ps

/-- Packages that are executed together: those that are left, and what is returned. -/
def together (s : Session) : List (List UInt8) → List (List UInt8) × Session × Option (List Msg)
  | [] => ([], s, some [])
  | p :: ps =>
      match perform decode nowt p s with
      | (s, none) => (ps, s, none)
      | (s, some r) =>
          let (rest, s, rs) := together s ps
          (rest, s, rs.map fun rs => if truthy r then r :: rs else rs)

/-- A division of the stream of some packages into chunks. -/
structure Division (ps : List (List UInt8)) (chunks : List (List UInt8)) : Prop where
  nonempty : ∀ c ∈ chunks, c ≠ []
  flatten : chunks.flatten = ps.flatMap encode

section Perform

variable {decode : Decode} {nowt : ℤ} {s : Session} {p : List UInt8} {ps : List (List UInt8)}

theorem iterated_singleton (r : Msg) :
  iterated [r] = if isNil r then [] else [r]
  := by
  rw [iterated, List.takeWhile_cons]
  cases isNil r <;> rfl

/-- A message that is not gone through is `nil`. -/
theorem eq_nil_of_iterated {r : Msg} (h : iterated [r] = []) :
  r = .val .nil
  := by
  rw [iterated_singleton] at h
  split at h
  · next hnil =>
      cases r with
      | tab t => cases hnil
      | val v => rw [of_decide_eq_true hnil]
  · cases h

/-- An error leaves the session as it is. -/
theorem perform_raised (decode : Decode) (nowt : ℤ) (p : List UInt8) (s : Session)
    (h : (perform decode nowt p s).2 = none) :
  (perform decode nowt p s).1 = s
  := by
  unfold perform executeMsg at h ⊢
  split
  · rfl
  · next tomsg hdecode =>
      rw [hdecode] at h
      dsimp only at h ⊢
      split at h
      · cases h
      · next hstate =>
          cases tomsg with
          | tab t => cases h
          | val v =>
              rw [Pack.executeMsg, if_neg hstate]
              dsimp only
              rw [List.append_nil]

/-- A package either puts something out, or leaves the session as it is, or resets the handshake. -/
theorem perform_out (decode : Decode) (nowt : ℤ) (p : List UInt8) (s : Session) :
  (∃ out, out ≠ [] ∧ (perform decode nowt p s).1.out = s.out ++ out) ∨
  (perform decode nowt p s).1 = s ∨
  (perform decode nowt p s).1 = ⟨(reset s.pack).1, s.out⟩ ∧ s.pack.mState ≠ .num 3
  := by
  unfold perform executeMsg
  split
  · exact .inr (.inl rfl)
  · next tomsg hdecode =>
      dsimp only
      unfold Pack.executeMsg
      split
      · next hstate =>
          dsimp only
          rw [List.append_nil]
          exact .inr (.inl rfl)
      · next hstate =>
          cases tomsg with
          | val v =>
              dsimp only
              rw [List.append_nil]
              exact .inr (.inl rfl)
          | tab t =>
              dsimp only
              rw [recvhandshake_server]
              split
              · exact .inl ⟨_, List.cons_ne_nil _ _, rfl⟩
              · split
                · exact .inl ⟨_, List.cons_ne_nil _ _, rfl⟩
                · unfold reset
                  dsimp only
                  rw [List.append_nil]
                  exact .inr (.inr ⟨rfl, hstate⟩)

/-- What has been put out stays. -/
theorem out_prefix_after (decode : Decode) (nowt : ℤ) (s : Session) (ps : List (List UInt8)) :
  s.out <+: (after decode nowt s ps).out
  := by
  induction ps generalizing s with
  | nil => exact List.prefix_refl _
  | cons p ps ih =>
      apply List.IsPrefix.trans _ (ih _)
      obtain ⟨out, -, hout⟩ | hsame | ⟨hreset, -⟩ := perform_out decode nowt p s
      · rw [hout]
        exact List.prefix_append _ _
      · simp [hsame]
      · simp [hreset]

/-- A package that puts nothing out leaves what has been put out, and no later one takes it back. -/
theorem perform_of_after (h : (after decode nowt s (p :: ps)).out = s.out) :
  (perform decode nowt p s).1 = s ∨
  (perform decode nowt p s).1 = ⟨(reset s.pack).1, s.out⟩ ∧ s.pack.mState ≠ .num 3
  := by
  obtain ⟨out, hne, hout⟩ | hsame := perform_out decode nowt p s
  · have hle := (out_prefix_after decode nowt (perform decode nowt p s).1 ps).length_le
    change _ ≤ (after decode nowt s (p :: ps)).out.length at hle
    rw [h, hout, List.length_append] at hle
    have hpos := List.length_pos_iff.mpr hne
    omega
  · exact hsame

/-- A handshake that has been reset stays so as long as nothing is put out. -/
theorem after_of_reset (hs : (reset s.pack).1 = s.pack) (h : (after decode nowt s ps).out = s.out) :
  after decode nowt s ps = s
  := by
  induction ps generalizing s with
  | nil => rfl
  | cons p ps ih =>
      have hsame : (perform decode nowt p s).1 = s := by
        obtain hsame | ⟨hreset, -⟩ := perform_of_after h
        · exact hsame
        · rw [hreset, hs]
      unfold after at h ⊢
      rw [hsame] at h ⊢
      exact ih hs h

/-- Where packages have no effect all together, each of them has none. -/
theorem inert_of_after (decode : Decode) (nowt : ℤ) (s : Session) (ps : List (List UInt8))
    (hafter : after decode nowt s ps = s) (hmessages : messages decode nowt s ps = []) :
  ∀ p ∈ ps, Inert decode nowt s p
  := by
  induction ps with
  | nil => exact nofun
  | cons p ps ih =>
      unfold messages at hmessages
      obtain ⟨hfirst, hrest⟩ := List.append_eq_nil_iff.mp hmessages
      have hsame : (perform decode nowt p s).1 = s := by
        obtain hsame | ⟨hreset, -⟩ := perform_of_after (congrArg Session.out hafter)
        · exact hsame
        · unfold after at hafter
          rw [hreset] at hafter
          have hout := congrArg Session.out hafter
          have hfixed := after_of_reset (s := ⟨(reset s.pack).1, s.out⟩) rfl hout
          rw [hreset, ← hfixed, hafter]
      have hnil : (perform decode nowt p s).2 = none ∨ (perform decode nowt p s).2 = some (.val .nil) := by
        cases hr : (perform decode nowt p s).2 with
        | none => exact .inl rfl
        | some r =>
            rw [hr, Option.toList_some] at hfirst
            rw [eq_nil_of_iterated hfirst]
            exact .inr rfl
      intro p' hp'
      obtain rfl | hp' := List.mem_cons.mp hp'
      · exact ⟨hsame, hnil⟩
      · unfold after at hafter
        rw [hsame] at hafter hrest
        exact ih hafter hrest p' hp'

end Perform

/-! ### Packages together -/

section Together

variable {decode : Decode} {nowt : ℤ} {s : Session} {p : List UInt8} {ps ps' : List (List UInt8)}

theorem after_append (s : Session) (ps ps' : List (List UInt8)) :
  after decode nowt s (ps ++ ps') = after decode nowt (after decode nowt s ps) ps'
  := by
  induction ps generalizing s with
  | nil => rfl
  | cons p ps ih => exact ih _

theorem messages_append (s : Session) (ps ps' : List (List UInt8)) :
  messages decode nowt s (ps ++ ps')
    = messages decode nowt s ps ++ messages decode nowt (after decode nowt s ps) ps'
  := by
  induction ps generalizing s with
  | nil => rfl
  | cons p ps ih =>
      rw [List.cons_append, messages, messages, after, ih, List.append_assoc]

theorem smooth_append :
  Smooth decode nowt s (ps ++ ps') ↔
    Smooth decode nowt s ps ∧ Smooth decode nowt (after decode nowt s ps) ps'
  := by
  induction ps generalizing s with
  | nil => exact ⟨fun h => ⟨trivial, h⟩, fun h => h.2⟩
  | cons p ps ih =>
      rw [List.cons_append, Smooth, Smooth, after]
      split
      · exact iff_of_false id fun h => h.1
      · rw [ih, and_assoc]

/-- A message that is not `false` counts as true precisely when it is not `nil`. -/
theorem truthy_of_ne_false {r : Msg} (h : r ≠ .val (.bool false)) :
  truthy r = !isNil r
  := by
  cases r with
  | tab t => rfl
  | val v =>
      cases v with
      | nil => rfl
      | bool b =>
          cases b with
          | false => exact absurd rfl h
          | true => rfl
      | _ => rfl

theorem not_nil_of_truthy {r : Msg} (h : truthy r = true) :
  isNil r = false
  := by
  cases r with
  | tab t => rfl
  | val v => exact decide_eq_false (Value.ne_nil_of_truthy h)

/-- Where no package raises an error or holds `false`, packages that come together are executed like
packages that come one by one. -/
theorem together_of_smooth (h : Smooth decode nowt s ps) :
  together decode nowt s ps = ([], after decode nowt s ps, some (messages decode nowt s ps))
  := by
  induction ps generalizing s with
  | nil => rfl
  | cons p ps ih =>
      unfold Smooth at h
      unfold together after messages
      generalize perform decode nowt p s = x at h ⊢
      obtain ⟨s', r⟩ := x
      cases r with
      | none => exact h.elim
      | some r =>
          obtain ⟨hfalse, hrest⟩ := h
          dsimp only at hrest ⊢
          rw [ih hrest, truthy_of_ne_false hfalse, Option.toList_some, iterated_singleton]
          cases isNil r <;> rfl

/-- Messages that were appended to a list of results are gone through by `ipairs`. -/
theorem iterated_messages (decode : Decode) (nowt : ℤ) (s : Session) (ps : List (List UInt8)) :
  iterated (messages decode nowt s ps) = messages decode nowt s ps
  := by
  induction ps generalizing s with
  | nil => rfl
  | cons p ps ih =>
      unfold messages
      have hfirst : ∀ r ∈ iterated (perform decode nowt p s).2.toList, !isNil r :=
        fun r hr => List.mem_takeWhile_imp (p := fun r => !isNil r) hr
      unfold iterated at ih hfirst ⊢
      rw [List.takeWhile_append_of_pos hfirst, ih]

/-- What packages return together if none raises an error, and whether one does. -/
theorem together_cases (decode : Decode) (nowt : ℤ) (s : Session) (ps : List (List UInt8)) :
  (∃ rs, together decode nowt s ps = ([], after decode nowt s ps, some rs) ∧
    rs.Sublist (messages decode nowt s ps)) ∨
  (together decode nowt s ps).2 = (stop decode nowt s ps, none)
  := by
  induction ps generalizing s with
  | nil => exact .inl ⟨[], rfl, List.Sublist.refl _⟩
  | cons p ps ih =>
      have hraised := perform_raised decode nowt p s
      unfold together after messages stop
      generalize perform decode nowt p s = x at hraised ⊢
      obtain ⟨s', r⟩ := x
      cases r with
      | none =>
          obtain rfl := hraised rfl
          exact .inr rfl
      | some r =>
          dsimp only
          obtain ⟨rs, hrs, hsub⟩ | hstop := ih s'
          · refine .inl ⟨if truthy r then r :: rs else rs, ?_, ?_⟩
            · rw [hrs]
              rfl
            · rw [Option.toList_some, iterated_singleton]
              cases htruthy : truthy r with
              | false => exact hsub.trans (List.sublist_append_right _ _)
              | true =>
                  rw [not_nil_of_truthy htruthy]
                  exact hsub.cons_cons r
          · generalize together decode nowt s' ps = y at hstop
            obtain ⟨rest, s'', rs⟩ := y
            obtain ⟨rfl, rfl⟩ := Prod.mk.inj hstop
            exact .inr rfl

/-- Packages without effect have none together either. -/
theorem together_of_inert (h : ∀ p ∈ ps, Inert decode nowt s p) :
  ∃ rest rs, together decode nowt s ps = (rest, s, rs) ∧ (rs.map iterated).getD [] = [] ∧
    ∀ p ∈ rest, p ∈ ps
  := by
  suffices hsome : ∃ rest rs, together decode nowt s ps = (rest, s, rs) ∧ (rs = none ∨ rs = some []) ∧
      ∀ p ∈ rest, p ∈ ps by
    obtain ⟨rest, rs, htogether, rfl | rfl, hrest⟩ := hsome
    · exact ⟨rest, none, htogether, rfl, hrest⟩
    · exact ⟨rest, some [], htogether, rfl, hrest⟩
  induction ps with
  | nil => exact ⟨[], some [], rfl, .inr rfl, nofun⟩
  | cons p ps ih =>
      obtain ⟨hsame, hr⟩ := h p List.mem_cons_self
      unfold together
      generalize perform decode nowt p s = x at hsame hr
      obtain ⟨s', r⟩ := x
      obtain rfl : s' = s := hsame
      obtain hnone | hnil := hr
      · obtain rfl : r = none := hnone
        exact ⟨ps, none, rfl, .inl rfl, fun p' hp' => List.mem_cons_of_mem _ hp'⟩
      · obtain rfl : r = some (.val .nil) := hnil
        obtain ⟨rest, rs, htogether, hrs, hrest⟩ := ih fun p' hp' => h p' (List.mem_cons_of_mem _ hp')
        refine ⟨rest, rs, ?_, hrs, fun p' hp' => List.mem_cons_of_mem _ (hrest p' hp')⟩
        dsimp only
        rw [htogether]
        obtain rfl | rfl := hrs <;> rfl

/-- Packages of which there are no messages up to the first error, and none of which has an effect after
it: all have been executed without a message, or an error has been raised and what is left has no
effect. -/
theorem together_of_silent (h : Silent decode nowt s (ps ++ ps')) :
  together decode nowt s ps = ([], after decode nowt s ps, some []) ∧
    Silent decode nowt (after decode nowt s ps) ps' ∧
    stop decode nowt (after decode nowt s ps) ps' = stop decode nowt s (ps ++ ps') ∨
  ∃ rest, together decode nowt s ps = (rest, stop decode nowt s (ps ++ ps'), none) ∧
    ∀ p ∈ rest ++ ps', Inert decode nowt (stop decode nowt s (ps ++ ps')) p
  := by
  induction ps generalizing s with
  | nil => exact .inl ⟨rfl, h, rfl⟩
  | cons p ps ih =>
      have hraised := perform_raised decode nowt p s
      rw [List.cons_append, Silent] at h
      rw [List.cons_append, together, after, stop]
      generalize perform decode nowt p s = x at h hraised ⊢
      obtain ⟨s', r⟩ := x
      cases r with
      | none =>
          obtain rfl := hraised rfl
          exact .inr ⟨ps, rfl, h⟩
      | some r =>
          obtain ⟨rfl, hrest⟩ := h
          dsimp only at hrest ⊢
          obtain ⟨htogether, hsilent, hstop⟩ | ⟨rest, htogether, hinert⟩ := ih hrest
          · refine .inl ⟨?_, hsilent, hstop⟩
            rw [htogether]
            rfl
          · refine .inr ⟨rest, ?_, hinert⟩
            rw [htogether]
            rfl

end Together

/-! ### What the chunks come to -/

/-- What the packages that a chunk completes come to, when some are left in the queue.  The bytes left over
say whether a single package has come alone. -/
def arrive (backlog : List (List UInt8)) (s : Session) (payloads : List (List UInt8)) (rest : List UInt8) :
    (List (List UInt8) × Session) × List Msg :=
  match payloads, rest with
  | [], _ => ((backlog, s), [])
  | [p], [] =>
      ((backlog, (perform decode nowt p s).1), iterated (perform decode nowt p s).2.toList)
  | payloads, _ =>
      let x := together decode nowt s (backlog ++ payloads)
      ((x.1, x.2.1), (x.2.2.map iterated).getD [])

/-- What chunks come to that arrive one after the other, when there are bytes left over from before. -/
def arriveAll (rest : List UInt8) (backlog : List (List UInt8)) (s : Session) :
    List (List UInt8) → Session × List Msg
  | [] => (s, [])
  | c :: cs =>
      let y := split (rest ++ c)
      let x := arrive decode nowt backlog s y.1 y.2
      let z := arriveAll y.2 x.1.1 x.1.2 cs
      (z.1, x.2 ++ z.2)

section Holds

variable {decode : Decode} {nowt : ℤ} {q : Option Queue} {kept : Fd → List UInt8} {fd : Fd}

theorem dispatchRest_holds {ps : List (List UInt8)} (h : Holds q kept (ps.map (packOf fd)))
    (rs : List Msg) (s : Session) :
  let x := dispatchRest decode nowt rs q s
  let y := together decode nowt s ps
  Holds x.1.filterqueue kept (y.1.map (packOf fd)) ∧ x.1.session = y.2.1 ∧
    x.2 = y.2.2.map (rs ++ ·)
  := by
  dsimp only
  induction ps generalizing q rs s with
  | nil =>
      have hpop : lpop q = none := lpop_eq_none.mpr h.queued
      rw [dispatchRest]
      split
      · refine ⟨h, rfl, ?_⟩
        rw [together, Option.map_some, List.append_nil]
      · next pack q' hpop' => cases hpop.symm.trans hpop'
  | cons p ps ih =>
      rw [dispatchRest]
      split
      · next hpop => cases (lpop_eq_none.mp hpop).symm.trans h.queued
      · next pack q' hpop =>
          obtain ⟨hcons, hq'⟩ := h.pop hpop
          rw [List.map_cons] at hcons
          obtain ⟨rfl, hrest⟩ := List.cons.inj hcons
          rw [← hrest] at hq'
          have hperform : executeMsg decode nowt (packOf fd p).buffer (packOf fd p).size s
              = perform decode nowt p s := rfl
          rw [hperform, together]
          generalize perform decode nowt p s = x
          obtain ⟨s', r⟩ := x
          cases r with
          | none => exact ⟨hq', rfl, rfl⟩
          | some r =>
              obtain ⟨hholds, hsession, hreturned⟩ := ih hq' (if truthy r then rs ++ [r] else rs) s'
              refine ⟨hholds, hsession, hreturned.trans ?_⟩
              dsimp only
              cases (together decode nowt s' ps).2.2 with
              | none => rfl
              | some rs' =>
                  cases truthy r with
                  | false => rfl
                  | true =>
                      rw [if_pos rfl, Option.map_some, List.append_assoc]
                      rfl

/-- What arrives on a connection comes to what the packages found come to. -/
theorem dispatch_holds {backlog : List (List UInt8)} (h : Holds q kept (backlog.map (packOf fd)))
    (s : Session) {chunk : List UInt8} (hchunk : chunk ≠ []) :
  let x := dispatch decode nowt fd ⟨q, s⟩ chunk
  let y := split (kept fd ++ chunk)
  let z := arrive decode nowt backlog s y.1 y.2
  Holds x.1.filterqueue (Function.update kept fd y.2) (z.1.1.map (packOf fd)) ∧
    x.1.session = z.1.2 ∧ x.2 = z.2
  := by
  obtain ⟨hfilter, hverdict⟩ := filterData_holds h fd hchunk
  dsimp only
  unfold dispatch unpackmsg lfilter
  generalize filterData q fd chunk = x at hfilter hverdict
  generalize split (kept fd ++ chunk) = y at hfilter hverdict ⊢
  obtain ⟨q', result⟩ := x
  obtain ⟨payloads, rest⟩ := y
  obtain rfl : result = verdict fd payloads rest := hverdict
  unfold deferred at hfilter
  have hmore : verdict fd payloads rest = .more →
      let x := dispatchQueue decode nowt q' s
      let z := together decode nowt s (backlog ++ payloads)
      Holds x.1.filterqueue (Function.update kept fd rest) (z.1.map (packOf fd)) ∧
        x.1.session = z.2.1 ∧ (x.2.map iterated).getD [] = (z.2.2.map iterated).getD [] := by
    intro hmore
    rw [hmore, if_pos rfl, ← List.map_append] at hfilter
    obtain ⟨hholds, hsession, hreturned⟩ := dispatchRest_holds hfilter [] s
    refine ⟨hholds, hsession, ?_⟩
    dsimp only [dispatchQueue]
    rw [hreturned]
    simp
  match payloads, rest with
  | [], rest =>
      rw [if_neg nofun, List.append_nil] at hfilter
      exact ⟨hfilter, rfl, rfl⟩
  | [payload], [] =>
      rw [if_neg nofun, List.append_nil] at hfilter
      refine ⟨hfilter, rfl, ?_⟩
      change (((perform decode nowt payload s).2.map fun r => [r]).map iterated).getD []
        = iterated (perform decode nowt payload s).2.toList
      cases (perform decode nowt payload s).2 <;> rfl
  | [payload], b :: rest => exact hmore rfl
  | payload :: payload' :: payloads, rest => exact hmore rfl

/-- The chunks that arrive on a connection come to what the packages in them come to. -/
theorem dispatchAll_holds {backlog : List (List UInt8)} (h : Holds q kept (backlog.map (packOf fd)))
    (s : Session) {chunks : List (List UInt8)} (hchunks : ∀ c ∈ chunks, c ≠ []) :
  let x := dispatchAll decode nowt fd ⟨q, s⟩ chunks
  (x.1.session, x.2) = arriveAll decode nowt (kept fd) backlog s chunks
  := by
  dsimp only
  induction chunks generalizing q kept backlog s with
  | nil => rfl
  | cons chunk chunks ih =>
      obtain ⟨hholds, hsession, hmessages⟩ := dispatch_holds h s (hchunks chunk List.mem_cons_self)
      have hrest := ih hholds (dispatch decode nowt fd ⟨q, s⟩ chunk).1.session
        fun c hc => hchunks c (List.mem_cons_of_mem _ hc)
      rw [Function.update_self] at hrest
      unfold dispatchAll arriveAll
      dsimp only
      rw [← hsession, ← hmessages, ← hrest]

end Holds

section Arrive

variable {decode : Decode} {nowt : ℤ} {s : Session} {ps ps' : List (List UInt8)}

/-- The packages that come next are the first ones of those that are still to come. -/
theorem split_next {rest c : List UInt8} {cs : List (List UInt8)}
    (h : split (rest ++ (c :: cs).flatten) = (ps, [])) :
  ∃ ps', ps = (split (rest ++ c)).1 ++ ps' ∧ split ((split (rest ++ c)).2 ++ cs.flatten) = (ps', [])
  := by
  rw [List.flatten_cons, ← List.append_assoc, split_append] at h
  obtain ⟨hps, hrest⟩ := Prod.mk.inj h
  exact ⟨_, hps.symm, Prod.ext rfl hrest⟩

theorem arrive_of_smooth (h : Smooth decode nowt s ps) (rest : List UInt8) :
  arrive decode nowt [] s ps rest = (([], after decode nowt s ps), messages decode nowt s ps)
  := by
  have htogether := together_of_smooth h
  have hiterated := iterated_messages decode nowt s ps
  match ps, rest with
  | [], rest => rfl
  | [p], [] =>
      unfold arrive messages
      dsimp only
      rw [messages, List.append_nil]
      rfl
  | [p], b :: rest =>
      unfold arrive
      dsimp only
      rw [List.nil_append, htogether, Option.map_some, Option.getD_some, hiterated]
  | p :: p' :: ps, rest =>
      unfold arrive
      dsimp only
      rw [List.nil_append, htogether, Option.map_some, Option.getD_some, hiterated]

theorem arrive_of_inert {backlog : List (List UInt8)} (h : ∀ p ∈ backlog ++ ps, Inert decode nowt s p)
    (rest : List UInt8) :
  ∃ backlog', arrive decode nowt backlog s ps rest = ((backlog', s), []) ∧
    ∀ p ∈ backlog', p ∈ backlog ++ ps
  := by
  obtain ⟨left, rs, htogether, hrs, hleft⟩ := together_of_inert h
  match ps, rest with
  | [], rest => exact ⟨backlog, rfl, fun p hp => List.mem_append_left _ hp⟩
  | [p], [] =>
      obtain ⟨hsame, hr⟩ := h p (List.mem_append_right _ List.mem_cons_self)
      refine ⟨backlog, ?_, fun p hp => List.mem_append_left _ hp⟩
      unfold arrive
      dsimp only
      rw [hsame]
      obtain hr | hr := hr <;> rw [hr] <;> rfl
  | [p], b :: rest =>
      refine ⟨left, ?_, hleft⟩
      unfold arrive
      dsimp only
      rw [htogether, hrs]
  | p :: p' :: ps, rest =>
      refine ⟨left, ?_, hleft⟩
      unfold arrive
      dsimp only
      rw [htogether, hrs]

theorem arrive_of_silent (h : Silent decode nowt s (ps ++ ps')) (rest : List UInt8) :
  arrive decode nowt [] s ps rest = (([], after decode nowt s ps), []) ∧
    Silent decode nowt (after decode nowt s ps) ps' ∧
    stop decode nowt (after decode nowt s ps) ps' = stop decode nowt s (ps ++ ps') ∨
  ∃ backlog, arrive decode nowt [] s ps rest = ((backlog, stop decode nowt s (ps ++ ps')), []) ∧
    ∀ p ∈ backlog ++ ps', Inert decode nowt (stop decode nowt s (ps ++ ps')) p
  := by
  have hmore : arrive decode nowt [] s ps rest = (((together decode nowt s ps).1,
        (together decode nowt s ps).2.1), ((together decode nowt s ps).2.2.map iterated).getD []) →
      arrive decode nowt [] s ps rest = (([], after decode nowt s ps), []) ∧
        Silent decode nowt (after decode nowt s ps) ps' ∧
        stop decode nowt (after decode nowt s ps) ps' = stop decode nowt s (ps ++ ps') ∨
      ∃ backlog, arrive decode nowt [] s ps rest = ((backlog, stop decode nowt s (ps ++ ps')), []) ∧
        ∀ p ∈ backlog ++ ps', Inert decode nowt (stop decode nowt s (ps ++ ps')) p := by
    intro hmore
    obtain ⟨htogether, hrest⟩ | ⟨backlog, htogether, hinert⟩ := together_of_silent h
    · rw [htogether] at hmore
      exact .inl ⟨hmore, hrest⟩
    · rw [htogether] at hmore
      exact .inr ⟨backlog, hmore, hinert⟩
  match ps, rest with
  | [], rest => exact .inl ⟨rfl, h, rfl⟩
  | [p], [] =>
      have hraised := perform_raised decode nowt p s
      rw [List.singleton_append, Silent] at h
      rw [List.singleton_append, after, after, stop]
      unfold arrive
      dsimp only
      generalize perform decode nowt p s = x at h hraised ⊢
      obtain ⟨s', r⟩ := x
      cases r with
      | none =>
          obtain rfl := hraised rfl
          exact .inr ⟨[], rfl, h⟩
      | some r =>
          obtain ⟨rfl, hrest⟩ := h
          exact .inl ⟨rfl, hrest, rfl⟩
  | [p], b :: rest => exact hmore rfl
  | p :: p' :: ps, rest => exact hmore rfl

/-- Where no package raises an error or holds `false`, the chunks come to what the packages come to one by
one. -/
theorem arriveAll_of_smooth (decode : Decode) (nowt : ℤ) {rest : List UInt8} (hrest : (split rest).1 = [])
    {cs : List (List UInt8)} (hsplit : split (rest ++ cs.flatten) = (ps, [])) (h : Smooth decode nowt s ps) :
  arriveAll decode nowt rest [] s cs = (after decode nowt s ps, messages decode nowt s ps)
  := by
  induction cs generalizing rest s ps with
  | nil =>
      rw [List.flatten_nil, List.append_nil] at hsplit
      rw [hsplit] at hrest
      obtain rfl : ps = [] := hrest
      rfl
  | cons c cs ih =>
      obtain ⟨ps', rfl, hsplit'⟩ := split_next hsplit
      obtain ⟨hfirst, hlater⟩ := smooth_append.mp h
      have hrest' : (split (split (rest ++ c)).2).1 = [] := by rw [split_rest]
      unfold arriveAll
      dsimp only
      rw [arrive_of_smooth hfirst, ih hrest' hsplit' hlater, after_append, messages_append]

/-- Where no package has an effect, the chunks have none. -/
theorem arriveAll_of_inert {rest : List UInt8} (hrest : (split rest).1 = []) {cs : List (List UInt8)}
    (hsplit : split (rest ++ cs.flatten) = (ps, [])) {backlog : List (List UInt8)}
    (h : ∀ p ∈ backlog ++ ps, Inert decode nowt s p) :
  arriveAll decode nowt rest backlog s cs = (s, [])
  := by
  induction cs generalizing rest ps backlog with
  | nil => rfl
  | cons c cs ih =>
      obtain ⟨ps', rfl, hsplit'⟩ := split_next hsplit
      have hrest' : (split (split (rest ++ c)).2).1 = [] := by rw [split_rest]
      rw [← List.append_assoc] at h
      obtain ⟨backlog', harrive, hbacklog⟩ :=
        arrive_of_inert (fun p hp => h p (List.mem_append_left _ hp)) (split (rest ++ c)).2
      have hlater : ∀ p ∈ backlog' ++ ps', Inert decode nowt s p := by
        intro p hp
        obtain hp | hp := List.mem_append.mp hp
        · exact h p (List.mem_append_left _ (hbacklog p hp))
        · exact h p (List.mem_append_right _ hp)
      unfold arriveAll
      dsimp only
      rw [harrive, ih hrest' hsplit' hlater]
      rfl

/-- Where there are no messages up to the first error and no package after it has an effect, the chunks
come to what comes before the error. -/
theorem arriveAll_of_silent {rest : List UInt8} (hrest : (split rest).1 = []) {cs : List (List UInt8)}
    (hsplit : split (rest ++ cs.flatten) = (ps, [])) (h : Silent decode nowt s ps) :
  arriveAll decode nowt rest [] s cs = (stop decode nowt s ps, [])
  := by
  induction cs generalizing rest s ps with
  | nil =>
      rw [List.flatten_nil, List.append_nil] at hsplit
      rw [hsplit] at hrest
      obtain rfl : ps = [] := hrest
      rfl
  | cons c cs ih =>
      obtain ⟨ps', rfl, hsplit'⟩ := split_next hsplit
      have hrest' : (split (split (rest ++ c)).2).1 = [] := by rw [split_rest]
      unfold arriveAll
      dsimp only
      obtain ⟨harrive, hsilent, hstop⟩ | ⟨backlog, harrive, hinert⟩ :=
        arrive_of_silent h (split (rest ++ c)).2
      · rw [harrive, ih hrest' hsplit' hsilent, hstop]
        rfl
      · rw [harrive, arriveAll_of_inert hrest' hsplit' hinert]
        rfl

/-- A single package is executed alone, whatever the chunks. -/
theorem arriveAll_of_single {rest : List UInt8} {p : List UInt8} {cs : List (List UInt8)}
    (hsplit : split (rest ++ cs.flatten) = ([p], [])) (hrest : (split rest).1 = []) :
  arriveAll decode nowt rest [] s cs = (after decode nowt s [p], messages decode nowt s [p])
  := by
  induction cs generalizing rest with
  | nil =>
      rw [List.flatten_nil, List.append_nil] at hsplit
      rw [hsplit] at hrest
      cases hrest
  | cons c cs ih =>
      obtain ⟨ps', hps, hsplit'⟩ := split_next hsplit
      have hrest' : (split (split (rest ++ c)).2).1 = [] := by rw [split_rest]
      unfold arriveAll
      dsimp only
      cases hpayloads : (split (rest ++ c)).1 with
      | nil =>
          rw [hpayloads, List.nil_append] at hps
          rw [← hps] at hsplit'
          rw [arrive, ih hsplit' hrest']
          rfl
      | cons p' payloads =>
          rw [hpayloads, List.cons_append, List.cons.injEq] at hps
          obtain ⟨rfl, hnil⟩ := hps
          obtain ⟨rfl, rfl⟩ := List.append_eq_nil_iff.mp hnil.symm
          have hleft : (split (rest ++ c)).2 = [] := by
            have hall := split_snd_of_nil (congrArg Prod.fst hsplit')
            rw [hsplit'] at hall
            exact (List.append_eq_nil_iff.mp hall.symm).1
          have hlater := arriveAll_of_smooth decode nowt
            (s := (perform decode nowt p s).1) hrest' hsplit' trivial
          rw [hleft] at hlater ⊢
          unfold arrive
          dsimp only
          rw [hlater]
          rfl

/-! ### Two divisions -/

theorem incomplete_nil :
  Incomplete []
  := ⟨[], [0, 0], by decide, by decide, rfl⟩

theorem split_packages (h : ∀ p ∈ ps, p.length ≤ 0xFFFF) :
  split (ps.flatMap encode) = (ps, [])
  := by
  have hsplit := split_stream h incomplete_nil
  rwa [List.append_nil] at hsplit

theorem encode_ne_nil (p : List UInt8) :
  encode p ≠ []
  := List.cons_ne_nil _ _

/-- The division that puts every package in a chunk of its own. -/
theorem division_singles (ps : List (List UInt8)) :
  Division ps (ps.map encode)
  where
  nonempty c hc := by
    obtain ⟨p, -, rfl⟩ := List.mem_map.mp hc
    exact encode_ne_nil p
  flatten := (List.flatMap_def).symm

/-- The division that puts all packages in one chunk. -/
theorem division_whole (hps : ps ≠ []) :
  Division ps [ps.flatMap encode]
  where
  nonempty c hc := by
    obtain rfl := List.mem_singleton.mp hc
    obtain ⟨p, ps, rfl⟩ := List.exists_cons_of_ne_nil hps
    exact List.append_ne_nil_of_left_ne_nil (encode_ne_nil p) _
  flatten := List.append_nil _

/-- Packages in chunks of their own are executed one by one. -/
theorem arriveAll_singles (h : ∀ p ∈ ps, p.length ≤ 0xFFFF) :
  arriveAll decode nowt [] [] s (ps.map encode) = (after decode nowt s ps, messages decode nowt s ps)
  := by
  induction ps generalizing s with
  | nil => rfl
  | cons p ps ih =>
      have hsplit := split_encode (h p List.mem_cons_self) []
      rw [List.append_nil, split_nil] at hsplit
      have hlater := ih (s := (perform decode nowt p s).1) fun p' hp' => h p' (List.mem_cons_of_mem _ hp')
      rw [List.map_cons, arriveAll, List.nil_append, hsplit]
      unfold arrive
      dsimp only
      rw [hlater]
      rfl

/-- Packages in one chunk are executed together. -/
theorem arriveAll_whole (h : ∀ p ∈ ps, p.length ≤ 0xFFFF) (hmany : 1 < ps.length) :
  arriveAll decode nowt [] [] s [ps.flatMap encode]
    = ((together decode nowt s ps).2.1, ((together decode nowt s ps).2.2.map iterated).getD [])
  := by
  rw [arriveAll, List.nil_append, split_packages h]
  match ps with
  | [] => cases hmany
  | [p] => exact absurd hmany (Nat.lt_irrefl 1)
  | p :: p' :: ps =>
      unfold arrive arriveAll
      dsimp only
      rw [List.nil_append, List.append_nil]

/-- Where packages return together what they return one by one, none of them holds `false`. -/
theorem smooth_of_together
    (h : together decode nowt s ps
      = ([], after decode nowt s ps, some (messages decode nowt s ps))) :
  Smooth decode nowt s ps
  := by
  induction ps generalizing s with
  | nil => trivial
  | cons p ps ih =>
      have hraised := perform_raised decode nowt p s
      unfold together after messages at h
      unfold Smooth
      generalize perform decode nowt p s = x at h hraised ⊢
      obtain ⟨s', r⟩ := x
      cases r with
      | none => cases congrArg (fun x => x.2.2) h
      | some r =>
          dsimp only at h ⊢
          rw [Option.toList_some, iterated_singleton] at h
          obtain ⟨rs, htogether, hsub⟩ | hstop := together_cases decode nowt s' ps
          · rw [htogether] at h
            have hrs : (if truthy r then r :: rs else rs)
                = (if isNil r then [] else [r]) ++ messages decode nowt s' ps :=
              Option.some.inj (congrArg (fun x => x.2.2) h)
            have hfalse : r ≠ .val (.bool false) := by
              rintro rfl
              have hlength := congrArg List.length hrs
              have hle := hsub.length_le
              change rs.length = (messages decode nowt s' ps).length + 1 at hlength
              omega
            use hfalse
            apply ih
            rw [truthy_of_ne_false hfalse] at hrs
            rw [htogether]
            cases hnil : isNil r with
            | true =>
                rw [hnil] at hrs
                rw [show rs = messages decode nowt s' ps from hrs]
            | false =>
                rw [hnil] at hrs
                rw [(List.cons.inj hrs).2]
                rfl
          · have hnone := congrArg (fun x => x.2.2) h
            dsimp only at hnone
            rw [congrArg Prod.snd hstop] at hnone
            cases hnone

/-- Where there are no messages and packages come to what comes before the first error, no package after it
has an effect. -/
theorem silent_of_after (hraises : (together decode nowt s ps).2.2 = none)
    (hmessages : messages decode nowt s ps = []) (hafter : after decode nowt s ps = stop decode nowt s ps) :
  Silent decode nowt s ps
  := by
  induction ps generalizing s with
  | nil => trivial
  | cons p ps ih =>
      have hraised := perform_raised decode nowt p s
      have hinert := inert_of_after decode nowt s ps
      unfold together at hraises
      unfold messages at hmessages
      unfold after stop at hafter
      unfold Silent
      obtain ⟨hfirst, hlater⟩ := List.append_eq_nil_iff.mp hmessages
      generalize perform decode nowt p s = x at *
      obtain ⟨s', r⟩ := x
      cases r with
      | none =>
          obtain rfl := hraised rfl
          exact hinert hafter hlater
      | some r =>
          dsimp only at hafter hlater hfirst hraises ⊢
          rw [Option.toList_some] at hfirst
          exact ⟨eq_nil_of_iterated hfirst, ih (Option.map_eq_none_iff.mp hraises) hlater hafter⟩

end Arrive

/-- The session and the messages passed to `AGENT.recv`, once the chunks have arrived on a connection of
which nothing has been read before. -/
def outcome (fd : Fd) (s : Session) (chunks : List (List UInt8)) : Session × List Msg :=
  let x := dispatchAll decode nowt fd ⟨none, s⟩ chunks
  (x.1.session, x.2)

theorem outcome_eq {decode : Decode} {nowt : ℤ} {ps chunks : List (List UInt8)} (h : Division ps chunks)
    (fd : Fd) (s : Session) :
  outcome decode nowt fd s chunks = arriveAll decode nowt [] [] s chunks
  := by
  have hholds : Holds none (fun _ : Fd => []) (([] : List (List UInt8)).map (packOf fd)) := holds_none
  exact dispatchAll_holds hholds s h.nonempty

/-- The division into chunks makes no difference precisely when there is at most one package, when no
package raises an error and none holds `false`, or when there are no messages up to the first error and no
package after it has an effect. -/
theorem division_irrelevant_iff (fd : Fd) (s : Session) {ps : List (List UInt8)}
    (hps : ∀ p ∈ ps, p.length ≤ 0xFFFF) :
  (∀ cs cs', Division ps cs → Division ps cs' →
    outcome decode nowt fd s cs = outcome decode nowt fd s cs') ↔
  ps.length ≤ 1 ∨ Smooth decode nowt s ps ∨ Silent decode nowt s ps
  := by
  have hsplit : ∀ cs, Division ps cs → split ([] ++ cs.flatten) = (ps, []) := by
    intro cs hcs
    rw [List.nil_append, hcs.flatten, split_packages hps]
  have hnil : (split []).1 = [] := by rw [split_nil]
  constructor
  · intro h
    by_cases hmany : 1 < ps.length
    · right
      have hne : ps ≠ [] := by
        rintro rfl
        cases hmany
      have hsame := h _ _ (division_singles ps) (division_whole hne)
      rw [outcome_eq (division_singles ps), outcome_eq (division_whole hne), arriveAll_singles hps,
        arriveAll_whole hps hmany] at hsame
      obtain ⟨hafter, hmessages⟩ := Prod.mk.inj hsame
      obtain ⟨rs, htogether, hsub⟩ | hstop := together_cases decode nowt s ps
      · left
        rw [htogether] at hmessages
        have hsub' : (iterated rs).Sublist rs := List.takeWhile_sublist _
        have hle := congrArg List.length hmessages
        have hrs : rs = messages decode nowt s ps := by
          apply hsub.eq_of_length_le
          rw [hle]
          exact hsub'.length_le
        apply smooth_of_together
        rw [htogether, ← hrs]
      · right
        rw [hstop] at hafter hmessages
        exact silent_of_after (congrArg Prod.snd hstop) hmessages hafter
    · exact .inl (Nat.le_of_not_lt hmany)
  · intro h cs cs' hcs hcs'
    rw [outcome_eq hcs, outcome_eq hcs']
    obtain hone | hsmooth | hsilent := h
    · match ps with
      | [] =>
          rw [arriveAll_of_smooth decode nowt hnil (hsplit cs hcs) trivial,
            arriveAll_of_smooth decode nowt hnil (hsplit cs' hcs') trivial]
      | [p] => rw [arriveAll_of_single (hsplit cs hcs) hnil, arriveAll_of_single (hsplit cs' hcs') hnil]
      | p :: p' :: ps => exact absurd hone (by rw [List.length_cons, List.length_cons]; omega)
    · rw [arriveAll_of_smooth decode nowt hnil (hsplit cs hcs) hsmooth,
        arriveAll_of_smooth decode nowt hnil (hsplit cs' hcs') hsmooth]
    · rw [arriveAll_of_silent hnil (hsplit cs hcs) hsilent,
        arriveAll_of_silent hnil (hsplit cs' hcs') hsilent]

/-- What is made of packages of one byte that are not encrypted. -/
def bytePlain (k : Key) (msg : List UInt8) : Option Msg :=
  match k, msg with
  | .plain, [0xc0] => some (.val .nil)
  | .plain, [0xc2] => some (.val (.bool false))
  | .plain, [0xc3] => some (.val (.bool true))
  | .plain, [b] => if b < 0x80 then some (.val (.num b.toNat)) else none
  | _, _ => none

/-- A session after a handshake in which no encryption was agreed on. -/
def plainSession : Session :=
  ⟨⟨.num 3, .str "", .str "key"⟩, []⟩

/-- The messages `false` and `1` are both passed on when they come one by one; when they come together,
`false` is lost. -/
theorem false_lost_together :
  ∃ cs cs', Division [[0xc2], [1]] cs ∧ Division [[0xc2], [1]] cs' ∧
    outcome bytePlain 0 7 plainSession cs = (plainSession, [.val (.bool false), .val (.num 1)]) ∧
    outcome bytePlain 0 7 plainSession cs' = (plainSession, [.val (.num 1)])
  := by
  have hps : ∀ p ∈ [[0xc2], [1]], (p : List UInt8).length ≤ 0xFFFF := by decide
  have hone := division_singles [[0xc2], [1]]
  have htwo : Division [[0xc2], [1]] [[[0xc2], [1]].flatMap encode] :=
    division_whole (List.cons_ne_nil _ _)
  refine ⟨_, _, hone, htwo, ?_, ?_⟩
  · rw [outcome_eq hone, arriveAll_singles hps]
    rfl
  · rw [outcome_eq htwo, arriveAll_whole hps (by decide)]
    rfl

/-- The messages `1` and `2` are passed on whatever the chunks. -/
theorem division_irrelevant_numbers :
  Smooth bytePlain 0 plainSession [[1], [2]] ∧
  ∀ cs cs', Division [[1], [2]] cs → Division [[1], [2]] cs' →
    outcome bytePlain 0 7 plainSession cs = outcome bytePlain 0 7 plainSession cs'
  := by
  have hsmooth : Smooth bytePlain 0 plainSession [[1], [2]] := ⟨nofun, nofun, trivial⟩
  use hsmooth
  exact (division_irrelevant_iff bytePlain 0 7 plainSession (by decide)).mpr (.inr (.inl hsmooth))

end Dispatch
