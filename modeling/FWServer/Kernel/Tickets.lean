import FWServer.Kernel.History
import Mathlib.Data.List.Induction
import Mathlib.Logic.Function.Basic
import Mathlib.Data.Nat.Notation

/-!
# Requests that are replied to once

A request is known by its place in the history of actions.  It is refused at once, or it opens a key and is
kept under it until an action settles the key; then it is replied to and kept no longer.

As long as every key that is opened is fresh, a request is replied to once when its key is settled for the
first time since, and never again (`replies_of_opens`).
-/

namespace Tickets

variable {κ α : Type}

/-- What an event does to the requests. -/
inductive Action (κ α : Type) where
  | opens (k : κ)
  | refused (a : α)
  | settles (k : κ) (a : α)
  | idle

/-- The requests that are kept, by their keys, and the replies. -/
structure Book (κ α : Type) where
  pending : κ → Option ℕ
  replies : List (ℕ × α)

namespace Book

/-- No request is kept. -/
def empty : Book κ α :=
  ⟨fun _ => none, []⟩

/-- What has been replied to a request. -/
def answers (b : Book κ α) (r : ℕ) : List α :=
  b.replies.filterMap fun x => if x.1 = r then some x.2 else none

variable [DecidableEq κ]

/-- The action in the place `n` of the history. -/
def handle (b : Book κ α) (n : ℕ) : Action κ α → Book κ α
  | .opens k => { b with pending := Function.update b.pending k (some n) }
  | .refused a => { b with replies := b.replies ++ [(n, a)] }
  | .settles k a =>
      match b.pending k with
      | some r => ⟨Function.update b.pending k none, b.replies ++ [(r, a)]⟩
      | none => b
  | .idle => b

end Book

section Histories

variable [DecidableEq κ] {h before after : List (Action κ α)} {x : Action κ α} {k : κ} {a : α} {r : ℕ}

/-- The requests after a history. -/
def book (h : List (Action κ α)) : Book κ α :=
  (h.foldl (fun p x => (p.1 + 1, p.2.handle p.1 x)) ((0, Book.empty) : ℕ × Book κ α)).2

/-- Every key that is opened is fresh. -/
def Fresh (h : List (Action κ α)) : Prop :=
  History.Ordered (fun before x => ∀ k, x = .opens k → .opens k ∉ before) h

/-- The reply an action gives under the key. -/
def settling (k : κ) : Action κ α → Option α
  | .settles k' a => if k' = k then some a else none
  | _ => none

theorem foldl_fst (h : List (Action κ α)) (n : ℕ) (b : Book κ α) :
  (h.foldl (fun p x => (p.1 + 1, p.2.handle p.1 x)) (n, b)).1 = n + h.length
  := by
  induction h generalizing n b with
  | nil => rfl
  | cons x h ih =>
      rw [List.foldl_cons, ih, List.length_cons]
      apply Nat.add_right_comm

theorem book_concat (h : List (Action κ α)) (x : Action κ α) :
  book (h ++ [x]) = (book h).handle h.length x
  := by
  unfold book
  rw [List.foldl_append]
  have hplace := foldl_fst h 0 (Book.empty : Book κ α)
  rw [Nat.zero_add] at hplace
  rw [List.foldl_cons, List.foldl_nil, hplace]

/-- What an action in the place `n` replies to the request `r`. -/
def Book.reply (b : Book κ α) (n : ℕ) (r : ℕ) : Action κ α → List α
  | .refused a => if n = r then [a] else []
  | .settles k a => if b.pending k = some r then [a] else []
  | _ => []

omit [DecidableEq κ] in
theorem Book.answers_concat (pending : κ → Option ℕ) (replies : List (ℕ × α)) (n : ℕ) (a : α) (r : ℕ) :
  (⟨pending, replies ++ [(n, a)]⟩ : Book κ α).answers r =
    (⟨pending, replies⟩ : Book κ α).answers r ++ if n = r then [a] else []
  := by
  unfold answers
  rw [List.filterMap_append]
  congr 1
  change (match (if n = r then some a else none) with | none => [] | some b => [b]) = _
  split_ifs <;> rfl

theorem Book.answers_handle (b : Book κ α) (n : ℕ) (x : Action κ α) (r : ℕ) :
  (b.handle n x).answers r = b.answers r ++ b.reply n r x
  := by
  cases x with
  | opens k => exact (List.append_nil _).symm
  | refused a => apply answers_concat
  | settles k a =>
      dsimp only [handle, reply]
      split
      · next r' hk =>
          rw [hk]
          simp only [Option.some_inj]
          apply answers_concat
      · next hk =>
          rw [hk, if_neg nofun]
          exact (List.append_nil _).symm
  | idle => exact (List.append_nil _).symm

theorem Book.pending_opens (b : Book κ α) (n : ℕ) (k k' : κ) :
  (b.handle n (.opens k')).pending k = if k = k' then some n else b.pending k
  := Function.update_apply _ _ _ _

theorem Book.pending_settles (b : Book κ α) (n : ℕ) (k k' : κ) (a : α) :
  (b.handle n (.settles k' a)).pending k = if k = k' then none else b.pending k
  := by
  dsimp only [handle]
  cases hk : b.pending k' with
  | some r => apply Function.update_apply
  | none =>
      dsimp only
      split
      · next heq =>
          rw [heq]
          exact hk
      · rfl

/-! ### Replying once -/

/-- What the requests of a history have come to. -/
structure Settled (h : List (Action κ α)) : Prop where
  /-- A request that has opened a key has the reply of the first action since that settles it. -/
  opened : ∀ before k after, h = before ++ .opens k :: after →
    (book h).answers before.length = (after.findSome? (settling k)).toList ∧
      (book h).pending k = if (after.findSome? (settling k)).isSome then none else some before.length
  refused : ∀ before a after, h = before ++ .refused a :: after →
    (book h).answers before.length = [a]
  /-- Only requests that have opened a key are kept under it. -/
  kept : ∀ k r, (book h).pending k = some r →
    ∃ before after, h = before ++ .opens k :: after ∧ before.length = r
  later : ∀ r, h.length ≤ r → (book h).answers r = []

theorem settled_nil :
  Settled ([] : List (Action κ α))
  := by
  constructor
  · intro before k after heq
    cases before <;> cases heq
  · intro before a after heq
    cases before <;> cases heq
  · rintro k r ⟨⟩
  · intro r _
    rfl

omit [DecidableEq κ] in
/-- An action in the place of a request is that request. -/
theorem eq_of_place {before' after' : List (Action κ α)} {x' : Action κ α}
    (heq : before ++ x :: after = before' ++ x' :: after') (hlength : before.length = before'.length) :
  x = x'
  := by
  obtain ⟨-, hcons⟩ := List.append_inj heq hlength
  exact (List.cons.inj hcons).1

omit [DecidableEq κ] in
theorem length_lt_of_eq (heq : h = before ++ x :: after) :
  before.length < h.length
  := by
  rw [heq, List.length_append, List.length_cons]
  omega

@[simp]
theorem settling_opens (k k' : κ) :
  settling k (.opens k' : Action κ α) = none
  := rfl

@[simp]
theorem settling_refused (k : κ) (a : α) :
  settling k (.refused a) = none
  := rfl

@[simp]
theorem settling_idle (k : κ) :
  settling k (.idle : Action κ α) = none
  := rfl

theorem settling_eq_none {k' : κ} (hne : k' ≠ k) (a : α) :
  settling k (.settles k' a) = none
  := if_neg hne

/-- What the last action does to a request that has opened a key before. -/
theorem Settled.opened_concat (hs : Settled h) (hx : ∀ k, x = .opens k → .opens k ∉ h)
    (heq : h = before ++ .opens k :: after) :
  (book (h ++ [x])).answers before.length = ((after ++ [x]).findSome? (settling k)).toList ∧
    (book (h ++ [x])).pending k =
      if ((after ++ [x]).findSome? (settling k)).isSome then none else some before.length
  := by
  obtain ⟨hanswers, hpending⟩ := hs.opened before k after heq
  have hlt := length_lt_of_eq heq
  rw [book_concat, Book.answers_handle, hanswers, List.findSome?_append, List.findSome?_singleton]
  cases x with
  | opens k' =>
      have hne : k ≠ k' := by
        rintro rfl
        apply hx k rfl
        rw [heq]
        apply List.mem_append_right _ List.mem_cons_self
      rw [Book.pending_opens, if_neg hne, hpending, settling_opens, Option.or_none]
      exact ⟨List.append_nil _, rfl⟩
  | refused a =>
      rw [Book.reply, if_neg (Nat.ne_of_gt hlt), List.append_nil, settling_refused, Option.or_none]
      exact ⟨rfl, hpending⟩
  | settles k' a =>
      rw [Book.pending_settles, Book.reply]
      rcases eq_or_ne k k' with rfl | hne
      · rw [if_pos rfl, hpending, settling, if_pos rfl]
        cases after.findSome? (settling k) with
        | some a' => exact ⟨rfl, rfl⟩
        | none => exact ⟨if_pos rfl, rfl⟩
      · rw [if_neg hne, settling_eq_none hne.symm, Option.or_none, if_neg, List.append_nil]
        · exact ⟨rfl, hpending⟩
        · -- the request is not the one that is kept under the other key
          intro hkept
          obtain ⟨before', after', heq', hlength⟩ := hs.kept k' _ hkept
          cases eq_of_place (heq.symm.trans heq') hlength.symm
          exact hne rfl
  | idle =>
      rw [settling_idle, Option.or_none]
      exact ⟨List.append_nil _, hpending⟩

theorem Settled.kept_concat (hs : Settled h) (hr : (book (h ++ [x])).pending k = some r) :
  ∃ before after, h ++ [x] = before ++ .opens k :: after ∧ before.length = r
  := by
  have hold : (book h).pending k = some r →
      ∃ before after, h ++ [x] = before ++ .opens k :: after ∧ before.length = r := by
    intro hr
    obtain ⟨before, after, heq, hlength⟩ := hs.kept k r hr
    use before, after ++ [x]
    rw [heq, List.append_assoc]
    exact ⟨rfl, hlength⟩
  rw [book_concat] at hr
  cases x with
  | opens k' =>
      rw [Book.pending_opens] at hr
      split at hr
      · next heq =>
          rw [← heq]
          use h, [], rfl, Option.some.inj hr
      · apply hold hr
  | refused a => apply hold hr
  | settles k' a =>
      rw [Book.pending_settles] at hr
      split at hr
      · cases hr
      · apply hold hr
  | idle => apply hold hr

/-- A request that is refused is not replied to again. -/
theorem Settled.reply_eq_nil (hs : Settled h) (hlt : r < h.length)
    (hr : ∀ before k after, h = before ++ .opens k :: after → before.length ≠ r) :
  (book h).reply h.length r x = []
  := by
  cases x with
  | opens k => rfl
  | refused a => apply if_neg (Nat.ne_of_gt hlt)
  | settles k a =>
      apply if_neg
      intro hkept
      obtain ⟨before, after, heq, hlength⟩ := hs.kept k r hkept
      apply hr before k after heq hlength
  | idle => rfl

/-- The last action settles no request that is yet to come. -/
theorem Settled.later_concat (hs : Settled h) (hr : (h ++ [x]).length ≤ r) :
  (book (h ++ [x])).answers r = []
  := by
  rw [List.length_append, List.length_singleton] at hr
  rw [book_concat, Book.answers_handle, hs.later r (Nat.le_of_succ_le hr), List.nil_append]
  cases x with
  | opens k => rfl
  | refused a => apply if_neg (Nat.ne_of_lt hr)
  | settles k a =>
      apply if_neg
      intro hkept
      obtain ⟨before, after, heq, rfl⟩ := hs.kept k r hkept
      have hlt := length_lt_of_eq heq
      omega
  | idle => rfl

theorem Settled.concat (hs : Settled h) (hx : ∀ k, x = .opens k → .opens k ∉ h) :
  Settled (h ++ [x])
  := by
  constructor
  · intro before k after heq
    obtain ⟨rfl, rfl, rfl⟩ | ⟨after', rfl, heq'⟩ := History.concat_cases heq
    · rw [book_concat, Book.answers_handle, Book.pending_opens, if_pos rfl, hs.later _ (Nat.le_refl _)]
      exact ⟨rfl, rfl⟩
    · apply hs.opened_concat hx heq'
  · intro before a after heq
    obtain ⟨rfl, rfl, rfl⟩ | ⟨after', rfl, heq'⟩ := History.concat_cases heq
    · rw [book_concat, Book.answers_handle, hs.later _ (Nat.le_refl _)]
      apply if_pos rfl
    · rw [book_concat, Book.answers_handle, hs.refused before a after' heq',
        hs.reply_eq_nil (length_lt_of_eq heq'), List.append_nil]
      intro before' k after'' heq'' hlength
      cases eq_of_place (heq'.symm.trans heq'') hlength.symm
  · intro k r hr
    apply hs.kept_concat hr
  · intro r hr
    apply hs.later_concat hr

/-- As long as every key that is opened is fresh, a request is replied to once: when it is refused, or when
its key is settled. -/
theorem settled_of_fresh (hfresh : Fresh h) :
  Settled h
  := by
  induction h using List.reverseRecOn with
  | nil => exact settled_nil
  | append_singleton h x ih =>
      apply (ih hfresh.of_concat).concat
      apply hfresh h x [] rfl

end Histories

end Tickets
