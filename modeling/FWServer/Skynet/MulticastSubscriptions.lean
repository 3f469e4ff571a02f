import FWServer.Skynet.Multicast

/-!
# Subscriptions of other nodes

The node a channel belongs to knows of another node that it has subscribers by the last of its `SUBR` and
`USUBR`; so what counts is what it will know when all messages that are on their way have arrived
(`System.held`).  This agrees with whether the other node has subscribers or has called and not been answered,
as long as no node loses its last subscriber while one of its calls is unanswered (`subscriptions_consistent`).
Otherwise the answer makes a subscriber of one whose node has been dropped meanwhile.
-/

namespace Skynet

namespace Multicast

variable {c c' n session source : ℕ} {h : Bool} {nd nd' : Node} {out : List Packet}

/-! ### A node -/

/-- What the node of a channel knows of another one after a message from it. -/
def effect (c : ℕ) (h : Bool) : Packet → Bool
  | .SUBR _ c' => if c' = c then true else h
  | .USUBR c' => if c' = c then false else h
  | .answer _ _ => h

/-- A request about a channel. -/
def Packet.Requests (c : ℕ) : Packet → Prop
  | .SUBR _ c' => c' = c
  | .USUBR c' => c' = c
  | .answer _ _ => False

namespace Node

/-- A `SUB` waits for an answer about the channel. -/
def Calls (nd : Node) (c : ℕ) : Prop :=
  ∃ session source, nd.calling session = some (source, c)

/-- What the tables of the node `n` hold of the channel `c`. -/
structure Sound (c n : ℕ) (nd : Node) : Prop where
  created : n = c % 256 → nd.channel c ≠ none
  nonempty : n ≠ c % 256 → nd.channel c ≠ some ∅
  counted : ∀ group, nd.channel c = some group → nd.channel_n c = some (group.card : ℤ)
  fresh : ∀ session, nd.session ≤ session → nd.calling session = none
  looking : ∀ w ∈ nd.looking, n ≠ w.c % 256
  parting : Wait.USUB c ∉ nd.looking

/-- And `h` says whether the node of the channel will know this one. -/
structure Good (c n : ℕ) (h : Bool) (nd : Node) : Prop where
  sound : nd.Sound c n
  held : n ≠ c % 256 → (h = true ↔ nd.channel c ≠ none ∨ nd.Calls c)
  known : n ≠ c % 256 → h = true → nd.node_address (c % 256) = true

/-- What a node sends is about one channel, and it remembers what it has called about. -/
structure Acts (c n c' : ℕ) (h : Bool) (nd : Node) (r : List Packet × Node) : Prop where
  good : r.2.Good c n (r.1.foldl (effect c) h)
  remote : r.2.channel_remote = nd.channel_remote
  session : nd.session ≤ r.2.session
  calling : ∀ session w, session < nd.session → r.2.calling session = some w → nd.calling session = some w
  requests : ∀ p ∈ r.1, p.Requests c'
  called : ∀ session c', .SUBR session c' ∈ r.1 → session < r.2.session ∧ n ≠ c' % 256 ∧
    ∀ w, r.2.calling session = some w → w.2 = c'

@[simp]
theorem setChannel_channel (nd : Node) (c : ℕ) (group : Option (Finset ℕ)) (k : Option ℤ) :
  (nd.setChannel c group k).channel c = group
  := Function.update_self _ _ _

@[simp]
theorem setChannel_channel_n (nd : Node) (c : ℕ) (group : Option (Finset ℕ)) (k : Option ℤ) :
  (nd.setChannel c group k).channel_n c = k
  := Function.update_self _ _ _

theorem setChannel_channel_of_ne (hne : c ≠ c') (group : Option (Finset ℕ)) (k : Option ℤ) :
  (nd.setChannel c' group k).channel c = nd.channel c
  := Function.update_of_ne hne _ _

theorem setChannel_channel_n_of_ne (hne : c ≠ c') (group : Option (Finset ℕ)) (k : Option ℤ) :
  (nd.setChannel c' group k).channel_n c = nd.channel_n c
  := Function.update_of_ne hne _ _

theorem setChannel_setChannel (nd : Node) (c : ℕ) (group group' : Option (Finset ℕ)) (k k' : Option ℤ) :
  (nd.setChannel c group k).setChannel c group' k' = nd.setChannel c group' k'
  := by
  unfold setChannel
  rw [Function.update_idem, Function.update_idem]

/-- Another channel is changed. -/
theorem Sound.setChannel_of_ne (hs : nd.Sound c n) (hne : c ≠ c') (group : Option (Finset ℕ))
    (k : Option ℤ) :
  (nd.setChannel c' group k).Sound c n
  := by
  constructor
  · rw [setChannel_channel_of_ne hne]
    exact hs.created
  · rw [setChannel_channel_of_ne hne]
    exact hs.nonempty
  · rw [setChannel_channel_of_ne hne, setChannel_channel_n_of_ne hne]
    exact hs.counted
  · exact hs.fresh
  · exact hs.looking
  · exact hs.parting

theorem Good.setChannel_of_ne (hgood : nd.Good c n h) (hne : c ≠ c') (group : Option (Finset ℕ))
    (k : Option ℤ) :
  (nd.setChannel c' group k).Good c n h
  := by
  constructor
  · exact hgood.sound.setChannel_of_ne hne group k
  · rw [setChannel_channel_of_ne hne]
    exact hgood.held
  · exact hgood.known

/-- The group of the channel is changed, and counted. -/
theorem Sound.setChannel (hs : nd.Sound c n) {group : Finset ℕ} (hgroup : n ≠ c % 256 → group ≠ ∅) :
  (nd.setChannel c (some group) (some (group.card : ℤ))).Sound c n
  := by
  constructor
  · rw [setChannel_channel]
    exact fun _ => nofun
  · rw [setChannel_channel]
    exact fun hn heq => hgroup hn (Option.some.inj heq)
  · rw [setChannel_channel, setChannel_channel_n]
    intro group' hgroup'
    rw [Option.some.inj hgroup']
  · exact hs.fresh
  · exact hs.looking
  · exact hs.parting

/-- The group of the channel is changed, and there was one before. -/
theorem Good.setChannel (hgood : nd.Good c n h) {group : Finset ℕ} (hgroup : n ≠ c % 256 → group ≠ ∅)
    (hchannel : nd.channel c ≠ none) :
  (nd.setChannel c (some group) (some (group.card : ℤ))).Good c n h
  := by
  constructor
  · exact hgood.sound.setChannel hgroup
  · intro hn
    rw [setChannel_channel]
    exact iff_of_true ((hgood.held hn).mpr (.inl hchannel)) (.inl nofun)
  · exact hgood.known

theorem Good.remote (hgood : nd.Good c n h) (remote : ℕ → Option (Finset ℕ)) :
  { nd with channel_remote := remote }.Good c n h
  := ⟨⟨hgood.sound.created, hgood.sound.nonempty, hgood.sound.counted, hgood.sound.fresh,
    hgood.sound.looking, hgood.sound.parting⟩, hgood.held, hgood.known⟩

/-- What is known of a node at the node itself does not matter. -/
theorem Good.of_held {h' : Bool} (hgood : nd.Good c n h) (heq : n ≠ c % 256 → h' = h) :
  nd.Good c n h'
  := by
  constructor
  · exact hgood.sound
  · intro hn
    rw [heq hn]
    exact hgood.held hn
  · intro hn
    rw [heq hn]
    exact hgood.known hn

/-! ### What a node does -/

/-- One subscriber more. -/
theorem Good.join (hgood : nd.Good c n h) (source c' : ℕ) :
  (nd.join source c').Good c n h
  := by
  unfold Node.join
  split
  · next group k hgroup hk =>
      split_ifs with hmem
      · exact hgood
      · rcases eq_or_ne c c' with rfl | hne
        · have hcount : k = group.card :=
            Option.some.inj (hk.symm.trans (hgood.sound.counted group hgroup))
          have hcard : k + 1 = ((insert source group).card : ℤ) := by
            rw [Finset.card_insert_of_notMem hmem, hcount]
            rfl
          rw [hcard]
          apply hgood.setChannel
          · exact fun _ => Finset.insert_ne_empty source group
          · rw [hgroup]
            exact nofun
        · exact hgood.setChannel_of_ne hne _ _
  · exact hgood

theorem join_same (nd : Node) (source c : ℕ) :
  (nd.join source c).channel_remote = nd.channel_remote ∧ (nd.join source c).session = nd.session ∧
    (nd.join source c).calling = nd.calling
  := by
  unfold join
  split
  · split_ifs <;> exact ⟨rfl, rfl, rfl⟩
  · exact ⟨rfl, rfl, rfl⟩

/-- Nothing is sent. -/
theorem acts_of_good (c' : ℕ) (hgood : nd'.Good c n h) (hremote : nd'.channel_remote = nd.channel_remote)
    (hsession : nd'.session = nd.session) (hcalling : nd'.calling = nd.calling) :
  nd.Acts c n c' h ([], nd')
  := by
  constructor
  · exact hgood
  · exact hremote
  · exact hsession.ge
  · intro session w _ hw
    rwa [← hcalling]
  · exact nofun
  · exact nofun

/-- A `USUBR` is sent. -/
theorem acts_of_USUBR (hgood : nd'.Good c n (effect c h (.USUBR c')))
    (hremote : nd'.channel_remote = nd.channel_remote) (hsession : nd'.session = nd.session)
    (hcalling : nd'.calling = nd.calling) :
  nd.Acts c n c' h ([.USUBR c'], nd')
  := by
  constructor
  · exact hgood
  · exact hremote
  · exact hsession.ge
  · intro session w _ hw
    rwa [← hcalling]
  · intro p hp
    obtain rfl := List.mem_singleton.mp hp
    rfl
  · intro session c'' hp
    cases List.mem_singleton.mp hp

/-- A node calls the node of a channel. -/
theorem Good.call (hgood : nd.Good c n h) (hn : n ≠ c' % 256) (hknown : nd.node_address (c' % 256) = true)
    (source : ℕ) :
  nd.Acts c n c' h (nd.call source c')
  := by
  have hfree : nd.calling nd.session = none := hgood.sound.fresh _ le_rfl
  have hself : (nd.call source c').2.calling nd.session = some (source, c') := Function.update_self _ _ _
  have hother {session : ℕ} (hne : session ≠ nd.session) :
      (nd.call source c').2.calling session = nd.calling session := Function.update_of_ne hne _ _
  constructor
  · constructor
    · constructor
      · exact hgood.sound.created
      · exact hgood.sound.nonempty
      · exact hgood.sound.counted
      · intro session hle
        have hle : nd.session + 1 ≤ session := hle
        rw [hother (Nat.ne_of_gt hle)]
        exact hgood.sound.fresh session (Nat.le_of_succ_le hle)
      · exact hgood.sound.looking
      · exact hgood.sound.parting
    · intro hnc
      rcases eq_or_ne c' c with rfl | hne
      · have heffect : (nd.call source c').1.foldl (effect c') h = true := if_pos rfl
        exact iff_of_true heffect (.inr ⟨nd.session, source, hself⟩)
      · have heffect : (nd.call source c').1.foldl (effect c) h = h := if_neg hne
        have hcalls : (nd.call source c').2.Calls c ↔ nd.Calls c := by
          constructor
          · rintro ⟨session, source', hcalling⟩
            rcases eq_or_ne session nd.session with rfl | hsession
            · rw [hself] at hcalling
              cases hcalling
              contradiction
            · rw [hother hsession] at hcalling
              exact ⟨session, source', hcalling⟩
          · rintro ⟨session, source', hcalling⟩
            have hsession : session ≠ nd.session := by
              rintro rfl
              cases hfree.symm.trans hcalling
            exact ⟨session, source', (hother hsession).trans hcalling⟩
        rw [heffect, hcalls]
        exact hgood.held hnc
    · intro hnc hheld
      rcases eq_or_ne c' c with rfl | hne
      · exact hknown
      · have heffect : (nd.call source c').1.foldl (effect c) h = h := if_neg hne
        rw [heffect] at hheld
        exact hgood.known hnc hheld
  · rfl
  · exact Nat.le_succ _
  · intro session w hlt hw
    rwa [hother (Nat.ne_of_lt hlt)] at hw
  · intro p hp
    obtain rfl := List.mem_singleton.mp hp
    rfl
  · intro session c'' hp
    obtain ⟨rfl, rfl⟩ := Packet.SUBR.inj (List.mem_singleton.mp hp)
    refine ⟨Nat.lt_succ_self _, hn, ?_⟩
    intro w hw
    rw [hself] at hw
    rw [← Option.some.inj hw]

/-- The request waits for the address of a node. -/
theorem Good.look (hgood : nd.Good c n h) {w : Wait} (hw : n ≠ w.c % 256) (hparting : w ≠ .USUB c) :
  { nd with looking := nd.looking ++ [w] }.Good c n h
  := by
  constructor
  · constructor
    · exact hgood.sound.created
    · exact hgood.sound.nonempty
    · exact hgood.sound.counted
    · exact hgood.sound.fresh
    · intro w' hw'
      rcases List.mem_append.mp hw' with hw' | hw'
      · exact hgood.sound.looking w' hw'
      · obtain rfl := List.mem_singleton.mp hw'
        exact hw
    · intro hmem
      rcases List.mem_append.mp hmem with hmem | hmem
      · exact hgood.sound.parting hmem
      · exact hparting (List.mem_singleton.mp hmem).symm
  · exact hgood.held
  · exact hgood.known

theorem Good.SUB (hgood : nd.Good c n h) (source c' : ℕ) :
  nd.Acts c n c' h (Node.SUB n nd source c')
  := by
  unfold Node.SUB
  dsimp only
  split_ifs with hremote hknown
  · exact hgood.call hremote.1.symm hknown source
  · have hlook : { nd with looking := nd.looking ++ [Wait.SUB source c'] }.Good c n h := by
      apply hgood.look
      · exact hremote.1.symm
      · exact nofun
    exact acts_of_good c' hlook rfl rfl rfl
  · obtain ⟨hremote, hsession, hcalling⟩ := join_same nd source c'
    exact acts_of_good c' (hgood.join source c') hremote hsession hcalling

/-! ### Answers -/

/-- A call that is over. -/
def finished (nd : Node) (session : ℕ) : Node :=
  { nd with calling := Function.update nd.calling session none }

theorem answered_of_none (hcalling : nd.calling session = none) (result : Answer) :
  nd.answered session result = nd
  := by rw [answered, hcalling]

/-- The answer is that there is no channel, or an error. -/
theorem answered_of_ne (hcalling : nd.calling session = some (source, c)) {result : Answer}
    (hresult : result ≠ .none) :
  nd.answered session result = nd.finished session
  := by
  unfold answered
  rw [hcalling]
  exact if_pos hresult

theorem answered_of_channel (hcalling : nd.calling session = some (source, c))
    (hchannel : nd.channel c ≠ none) :
  nd.answered session .none = (nd.finished session).join source c
  := by
  unfold answered
  rw [hcalling]
  exact (if_neg (not_not_intro rfl)).trans (if_neg hchannel)

/-- The group is made, with one subscriber. -/
theorem answered_of_no_channel (hcalling : nd.calling session = some (source, c))
    (hchannel : nd.channel c = none) :
  nd.answered session .none = (nd.finished session).setChannel c (some {source}) (some 1)
  := by
  have hanswered : nd.answered session .none =
      ((nd.finished session).setChannel c (some ∅) (some 0)).join source c := by
    unfold answered
    rw [hcalling]
    exact (if_neg (not_not_intro rfl)).trans (if_pos hchannel)
  have hmem : source ∉ (∅ : Finset ℕ) := Finset.notMem_empty source
  rw [hanswered, join, setChannel_channel, setChannel_channel_n]
  dsimp only
  rw [if_neg hmem, setChannel_setChannel]
  rfl

theorem finished_calling_self (nd : Node) (session : ℕ) :
  (nd.finished session).calling session = none
  := Function.update_self _ _ _

theorem finished_calling_of_ne {session' : ℕ} (hne : session' ≠ session) :
  (nd.finished session).calling session' = nd.calling session'
  := Function.update_of_ne hne _ _

theorem finished_calling {session' : ℕ} {w : ℕ × ℕ} (hw : (nd.finished session).calling session' = some w) :
  nd.calling session' = some w
  := by
  rcases eq_or_ne session' session with rfl | hne
  · rw [finished_calling_self] at hw
    contradiction
  · rwa [finished_calling_of_ne hne] at hw

theorem Sound.finished (hs : nd.Sound c n) (session : ℕ) :
  (nd.finished session).Sound c n
  := by
  constructor
  · exact hs.created
  · exact hs.nonempty
  · exact hs.counted
  · intro session' hle
    rcases eq_or_ne session' session with rfl | hne
    · exact finished_calling_self _ _
    · rw [finished_calling_of_ne hne]
      exact hs.fresh session' hle
  · exact hs.looking
  · exact hs.parting

/-- It does not matter that a call is over if there is a group, or if it was about another channel. -/
theorem Good.finished (hgood : nd.Good c n h) (hcalling : nd.calling session = some (source, c'))
    (hother : c' ≠ c ∨ nd.channel c ≠ none) :
  (nd.finished session).Good c n h
  := by
  constructor
  · exact hgood.sound.finished session
  · intro hn
    rw [hgood.held hn]
    constructor
    · rintro (hchannel | ⟨session', source', hcalling'⟩)
      · exact .inl hchannel
      · rcases hother with hne | hchannel
        · have hsession : session' ≠ session := by
            rintro rfl
            cases hcalling.symm.trans hcalling'
            contradiction
          exact .inr ⟨session', source', (finished_calling_of_ne hsession).trans hcalling'⟩
        · exact .inl hchannel
    · rintro (hchannel | ⟨session', source', hcalling'⟩)
      · exact .inl hchannel
      · exact .inr ⟨session', source', finished_calling hcalling'⟩
  · exact hgood.known

/-- No call is made. -/
theorem acts_of_calling (c' : ℕ) (hgood : nd'.Good c n h) (hremote : nd'.channel_remote = nd.channel_remote)
    (hsession : nd'.session = nd.session)
    (hcalling : ∀ session w, nd'.calling session = some w → nd.calling session = some w) :
  nd.Acts c n c' h ([], nd')
  := by
  constructor
  · exact hgood
  · exact hremote
  · exact hsession.ge
  · exact fun session w _ hw => hcalling session w hw
  · exact nofun
  · exact nofun

theorem Good.answered (hgood : nd.Good c n h) {result : Answer}
    (hanswer : ∀ source, nd.calling session = some (source, c) → result = .none) (c'' : ℕ) :
  nd.Acts c n c'' h ([], nd.answered session result)
  := by
  rcases hcall : nd.calling session with _ | ⟨source, c'⟩
  · rw [answered_of_none hcall]
    exact acts_of_good c'' hgood rfl rfl rfl
  · rcases eq_or_ne result .none with rfl | hresult
    · rcases Decidable.em (nd.channel c' = none) with hchannel | hchannel
      · rw [answered_of_no_channel hcall hchannel]
        apply acts_of_calling
        · rcases eq_or_ne c' c with rfl | hne
          · constructor
            · have hsound := (hgood.sound.finished session).setChannel fun _ : n ≠ c' % 256 =>
                Finset.singleton_ne_empty source
              rwa [Finset.card_singleton] at hsound
            · intro hn
              rw [setChannel_channel]
              exact iff_of_true ((hgood.held hn).mpr (.inr ⟨session, source, hcall⟩)) (.inl nofun)
            · exact hgood.known
          · exact (hgood.finished hcall (.inl hne)).setChannel_of_ne hne.symm _ _
        · rfl
        · rfl
        · exact fun session' w hw => finished_calling hw
      · rw [answered_of_channel hcall hchannel]
        obtain ⟨hremote, hsession, hcalling⟩ := join_same (nd.finished session) source c'
        apply acts_of_calling
        · apply Good.join
          apply hgood.finished hcall
          rcases eq_or_ne c' c with rfl | hne
          · exact .inr hchannel
          · exact .inl hne
        · exact hremote
        · exact hsession
        · intro session' w hw
          rw [hcalling] at hw
          exact finished_calling hw
    · rw [answered_of_ne hcall hresult]
      apply acts_of_calling
      · apply hgood.finished hcall
        left
        rintro rfl
        exact hresult (hanswer source hcall)
      · rfl
      · rfl
      · exact fun session' w hw => finished_calling hw

/-! ### Leaving -/

/-- The last subscriber leaves, and no call is unanswered. -/
theorem Good.leave (hgood : nd.Good c n h) (hcalls : ¬nd.Calls c) (hn : n ≠ c % 256) :
  (nd.setChannel c none none).Good c n false
  := by
  constructor
  · constructor
    · exact fun hown => absurd hown hn
    · rw [setChannel_channel]
      exact fun _ => nofun
    · rw [setChannel_channel]
      exact fun _ => nofun
    · exact hgood.sound.fresh
    · exact hgood.sound.looking
    · exact hgood.sound.parting
  · rw [setChannel_channel]
    intro _
    apply iff_of_false
    · exact nofun
    · exact not_or.mpr ⟨not_not_intro rfl, hcalls⟩
  · exact fun _ => nofun

/-- One subscriber less. -/
theorem Good.erase (hgood : nd.Good c n h) {group : Finset ℕ} (hgroup : nd.channel c = some group)
    (hmem : source ∈ group) (hmore : n ≠ c % 256 → (group.card : ℤ) - 1 ≠ 0) :
  (nd.setChannel c (some (group.erase source)) (some ((group.card : ℤ) - 1))).Good c n h
  := by
  have hcard : (group.card : ℤ) - 1 = ((group.erase source).card : ℤ) := by
    have hpos := Finset.card_pos.mpr ⟨source, hmem⟩
    rw [Finset.card_erase_of_mem hmem]
    omega
  rw [hcard]
  apply hgood.setChannel
  · intro hn hempty
    apply hmore hn
    rw [hcard, hempty]
    rfl
  · rw [hgroup]
    exact nofun

/-- The only subscriber is the one that leaves. -/
theorem eq_singleton_of_card {group : Finset ℕ} (hmem : source ∈ group) (hcard : (group.card : ℤ) - 1 = 0) :
  group = {source}
  := by
  have hone : group.card = 1 := by omega
  obtain ⟨source', rfl⟩ := Finset.card_eq_one.mp hone
  rw [Finset.mem_singleton.mp hmem]

theorem Good.USUB (hgood : nd.Good c n h)
    (hguard : c' = c → n ≠ c % 256 → nd.channel c = some {source} → ¬nd.Calls c) :
  nd.Acts c n c' h (Node.USUB n nd source c')
  := by
  have hself : nd.Acts c n c' h ([], nd) := acts_of_good c' hgood rfl rfl rfl
  unfold Node.USUB
  split
  · exact hself
  · next group hgroup =>
      split_ifs with hmem
      · split
        · next hnone =>
            rcases eq_or_ne c c' with rfl | hne
            · cases hnone.symm.trans (hgood.sound.counted group hgroup)
            · apply acts_of_good
              · exact hgood.setChannel_of_ne hne _ _
              · rfl
              · rfl
              · rfl
        · next k hk =>
            dsimp only
            split_ifs with hlast hknown
            · apply acts_of_USUBR
              · rcases eq_or_ne c' c with rfl | hne
                · have hcount : k = group.card :=
                    Option.some.inj (hk.symm.trans (hgood.sound.counted group hgroup))
                  rw [hcount] at hlast
                  have hsingle := eq_singleton_of_card hmem hlast.1
                  rw [hsingle] at hgroup
                  have heffect : effect c' h (.USUBR c') = false := if_pos rfl
                  rw [heffect]
                  exact hgood.leave (hguard rfl hlast.2.symm hgroup) hlast.2.symm
                · have heffect : effect c h (.USUBR c') = h := if_neg hne
                  rw [heffect]
                  exact hgood.setChannel_of_ne hne.symm _ _
              · rfl
              · rfl
              · rfl
            · rcases eq_or_ne c' c with rfl | hne
              · -- the address has been known since the node called
                have hheld : h = true := (hgood.held hlast.2.symm).mpr (.inl (by rw [hgroup]; exact nofun))
                exact absurd (hgood.known hlast.2.symm hheld) hknown
              · apply acts_of_good
                · apply (hgood.setChannel_of_ne hne.symm none none).look
                  · exact hlast.2.symm
                  · rintro ⟨⟩
                    exact hne rfl
                · rfl
                · rfl
                · rfl
            · apply acts_of_good
              · rcases eq_or_ne c' c with rfl | hne
                · have hcount : k = group.card :=
                    Option.some.inj (hk.symm.trans (hgood.sound.counted group hgroup))
                  rw [hcount] at hlast ⊢
                  exact hgood.erase hgroup hmem fun hn hzero => hlast ⟨hzero, hn.symm⟩
                · exact hgood.setChannel_of_ne hne.symm _ _
              · rfl
              · rfl
              · rfl
      · exact hself

theorem Good.located (hgood : nd.Good c n h) {i : ℕ} {w : Wait} (hw : nd.looking[i]? = some w)
    (found : Bool) :
  nd.Acts c n w.c h (nd.located i w found)
  := by
  have hmem : w ∈ nd.looking := List.mem_of_getElem? hw
  have hrest (known : ℕ → Bool) (hknown : nd.node_address (c % 256) = true → known (c % 256) = true) :
      { nd with looking := nd.looking.eraseIdx i, node_address := known }.Good c n h := by
    constructor
    · constructor
      · exact hgood.sound.created
      · exact hgood.sound.nonempty
      · exact hgood.sound.counted
      · exact hgood.sound.fresh
      · exact fun w' hw' => hgood.sound.looking w' (List.mem_of_mem_eraseIdx hw')
      · exact fun hparting => hgood.sound.parting (List.mem_of_mem_eraseIdx hparting)
    · exact hgood.held
    · exact fun hn hheld => hknown (hgood.known hn hheld)
  have hupdate (hknown : nd.node_address (c % 256) = true) :
      Function.update nd.node_address (w.c % 256) true (c % 256) = true := by
    rcases eq_or_ne (c % 256) (w.c % 256) with heq | hne
    · rw [heq, Function.update_self]
    · rwa [Function.update_of_ne hne]
  unfold Node.located
  dsimp only
  split_ifs with hfound
  · have hlooking := hgood.sound.looking w hmem
    have hfoundGood := hrest _ hupdate
    cases w with
    | SUB source c' =>
        have hcall := hfoundGood.call hlooking (Function.update_self _ _ _) source
        constructor
        · exact hcall.good
        · exact hcall.remote
        · exact hcall.session
        · exact hcall.calling
        · exact hcall.requests
        · exact hcall.called
    | USUB c' =>
        have hne : c' ≠ c := by
          rintro rfl
          exact hgood.sound.parting hmem
        apply acts_of_USUBR
        · have heffect : effect c h (.USUBR (Wait.USUB c').c) = h := if_neg hne
          rw [heffect]
          exact hfoundGood
        · rfl
        · rfl
        · rfl
  · exact acts_of_good w.c (hrest nd.node_address fun hknown => hknown) rfl rfl rfl

end Node

namespace System

variable {s s' : System} {a b m : ℕ} {p : Packet}

/-! ### All nodes -/

/-- The nodes that are known to have subscribers. -/
def remotes (s : System) (c : ℕ) : Finset ℕ :=
  ((s.node (c % 256)).channel_remote c).getD ∅

/-- Whether the node of a channel will know another one, when what is on its way has arrived. -/
def held (s : System) (c n : ℕ) : Bool :=
  s.link.fold (effect c) n (c % 256) (decide (n ∈ s.remotes c))

/-- What holds in every state. -/
structure Good (s : System) (c : ℕ) : Prop where
  nodes : ∀ n, (s.node n).Good c n (s.held c n)
  requests : ∀ n b session c', .SUBR session c' ∈ s.link n b →
    n ≠ c' % 256 ∧ b = c' % 256 ∧ session < (s.node n).session ∧
    ∀ w, (s.node n).calling session = some w → w.2 = c'
  answers : ∀ b n session result, .answer session result ∈ s.link b n →
    session < (s.node n).session ∧
    ∀ source, (s.node n).calling session = some (source, c) → result = .none

theorem act_node_self (s : System) (n m : ℕ) (r : List Packet × Node) :
  (s.act n m r).node n = r.2
  := Function.update_self _ _ _

theorem act_node_of_ne (hne : b ≠ n) (r : List Packet × Node) :
  (s.act n m r).node b = s.node b
  := Function.update_of_ne hne _ _

/-- Messages without an effect on the channel. -/
theorem foldl_effect (hout : ∀ p ∈ out, ∀ h, effect c h p = h) (h : Bool) :
  out.foldl (effect c) h = h
  := by
  induction out with
  | nil => rfl
  | cons p ps ih =>
      rw [List.foldl_cons, hout p List.mem_cons_self]
      exact ih fun q hq => hout q (List.mem_cons_of_mem p hq)

theorem effect_of_requests (hp : p.Requests c') (hne : c' ≠ c) (h : Bool) :
  effect c h p = h
  := by
  cases p with
  | SUBR session c'' =>
      obtain rfl : c'' = c' := hp
      exact if_neg hne
  | USUBR c'' =>
      obtain rfl : c'' = c' := hp
      exact if_neg hne
  | answer session result => rfl

/-- Nothing is sent to anybody. -/
theorem act_nil (s : System) (n a b : ℕ) (nd : Node) :
  s.act n a ([], nd) = s.act n b ([], nd)
  := by
  unfold act
  rw [Links.push_nil, Links.push_nil]

/-- A node acts for its services. -/
theorem Good.act (hgood : s.Good c) {r : List Packet × Node}
    (hacts : (s.node n).Acts c n c' (s.held c n) r) :
  (s.act n (c' % 256) r).Good c
  := by
  have hremotes : (s.act n (c' % 256) r).remotes c = s.remotes c := by
    unfold remotes
    rcases eq_or_ne (c % 256) n with heq | hne
    · rw [heq, act_node_self, hacts.remote]
    · rw [act_node_of_ne hne]
  have hheld (b : ℕ) : (s.act n (c' % 256) r).held c b =
      if b = n then r.1.foldl (effect c) (s.held c n) else s.held c b := by
    unfold held
    rw [hremotes]
    split_ifs with hb
    · subst hb
      rcases eq_or_ne (c % 256) (c' % 256) with heq | hne
      · rw [heq]
        exact Links.fold_push _ _ _ _ _ _
      · have hother : c' ≠ c := fun heq => hne (congrArg (· % 256) heq.symm)
        rw [foldl_effect fun p hp => effect_of_requests (hacts.requests p hp) hother]
        exact Links.fold_push_of_ne (fun hand => hne hand.2) _ _ _
    · exact Links.fold_push_of_ne (fun hand => hb hand.1) _ _ _
  constructor
  · intro b
    rw [hheld]
    split_ifs with hb
    · rw [hb, act_node_self]
      exact hacts.good
    · rw [act_node_of_ne hb]
      exact hgood.nodes b
  · intro b t session c'' hp
    rcases Links.mem_push hp with hp | ⟨hnew, rfl, rfl⟩
    · obtain ⟨hb, ht, hlt, hcalling⟩ := hgood.requests b t session c'' hp
      rcases eq_or_ne b n with rfl | hne
      · rw [act_node_self]
        refine ⟨hb, ht, Nat.lt_of_lt_of_le hlt hacts.session, ?_⟩
        exact fun w hw => hcalling w (hacts.calling session w hlt hw)
      · rw [act_node_of_ne hne]
        exact ⟨hb, ht, hlt, hcalling⟩
    · obtain ⟨hlt, hb, hcalling⟩ := hacts.called session c'' hnew
      have hsame : c'' = c' := hacts.requests _ hnew
      rw [act_node_self]
      exact ⟨hb, by rw [hsame], hlt, hcalling⟩
  · intro t b session result hp
    rcases Links.mem_push hp with hp | ⟨hnew, rfl, rfl⟩
    · obtain ⟨hlt, hcalling⟩ := hgood.answers t b session result hp
      rcases eq_or_ne b n with rfl | hne
      · rw [act_node_self]
        refine ⟨Nat.lt_of_lt_of_le hlt hacts.session, ?_⟩
        exact fun source hw => hcalling source (hacts.calling session _ hlt hw)
      · rw [act_node_of_ne hne]
        exact ⟨hlt, hcalling⟩
    · exact absurd (hacts.requests _ hnew) id

/-! ### Messages that arrive -/

/-- A message is taken from a link. -/
def take (s : System) (a b : ℕ) (rest : List Packet) : System :=
  { s with link := s.link.set a b rest }

/-- What a node is known to have once everything has arrived does not change as a message arrives. -/
theorem held_arrive {rest : List Packet} {nd : Node} (hlink : s.link a b = p :: rest)
    (hout : ∀ q ∈ out, ∀ h, effect c h q = h)
    (hremotes : decide (n ∈ ((s.take a b rest).act b a (out, nd)).remotes c) =
      if n = a ∧ c % 256 = b then effect c (decide (n ∈ s.remotes c)) p else decide (n ∈ s.remotes c)) :
  ((s.take a b rest).act b a (out, nd)).held c n = s.held c n
  := by
  have hpush (t : Bool) :
      ((s.link.set a b rest).push b a out).fold (effect c) n (c % 256) t =
        (s.link.set a b rest).fold (effect c) n (c % 256) t := by
    rcases Decidable.em (n = b ∧ c % 256 = a) with ⟨hn, hc⟩ | hne
    · rw [hn, hc, Links.fold_push, foldl_effect hout]
    · exact Links.fold_push_of_ne hne _ _ _
  unfold held
  rw [hremotes]
  apply (hpush _).trans
  split_ifs with hhere
  · obtain ⟨rfl, hc⟩ := hhere
    rw [hc]
    exact Links.fold_receive hlink _ _
  · exact Links.fold_set_of_ne hhere _ _ _

/-- A request arrives, and is answered or not. -/
theorem Good.arrive {rest : List Packet} {remote : ℕ → Option (Finset ℕ)} (hgood : s.Good c)
    (hlink : s.link a b = p :: rest)
    (hout : ∀ q ∈ out, ∃ session result, q = .answer session result ∧ session < (s.node a).session ∧
      ∀ source, (s.node a).calling session = some (source, c) → result = .none)
    (hremote : ∀ n, n ≠ c % 256 → c % 256 = b →
      decide (n ∈ (remote c).getD ∅) =
        if n = a then effect c (decide (n ∈ s.remotes c)) p else decide (n ∈ s.remotes c)) :
  ((s.take a b rest).act b a (out, { s.node b with channel_remote := remote })).Good c
  := by
  have heffect : ∀ q ∈ out, ∀ h, effect c h q = h := by
    intro q hq h
    obtain ⟨session, result, rfl, -⟩ := hout q hq
    rfl
  have hheld (n : ℕ) (hn : n ≠ c % 256) :
      ((s.take a b rest).act b a (out, { s.node b with channel_remote := remote })).held c n =
        s.held c n := by
    apply held_arrive hlink heffect
    rcases eq_or_ne (c % 256) b with hb | hb
    · have hremotes : ((s.take a b rest).act b a (out, { s.node b with channel_remote := remote })).remotes
          c = (remote c).getD ∅ := by
        unfold remotes
        rw [hb, act_node_self]
      rw [hremotes, hremote n hn hb]
      exact if_congr (and_iff_left hb).symm rfl rfl
    · have hremotes : ((s.take a b rest).act b a (out, { s.node b with channel_remote := remote })).remotes
          c = s.remotes c := by
        unfold remotes
        rw [act_node_of_ne hb]
        rfl
      rw [hremotes, if_neg fun hand => hb hand.2]
  have hcalling (n : ℕ) :
      ((((s.take a b rest).act b a (out, { s.node b with channel_remote := remote })).node n).calling =
        (s.node n).calling) ∧
      ((((s.take a b rest).act b a (out, { s.node b with channel_remote := remote })).node n).session =
        (s.node n).session) := by
    rcases eq_or_ne n b with rfl | hne
    · rw [act_node_self]
      exact ⟨rfl, rfl⟩
    · rw [act_node_of_ne hne]
      exact ⟨rfl, rfl⟩
  constructor
  · intro n
    have hnode : (((s.take a b rest).act b a (out, { s.node b with channel_remote := remote })).node n).Good
        c n (s.held c n) := by
      rcases eq_or_ne n b with rfl | hne
      · rw [act_node_self]
        exact (hgood.nodes n).remote remote
      · rw [act_node_of_ne hne]
        exact hgood.nodes n
    exact hnode.of_held fun hn => hheld n hn
  · intro n t session c' hp
    rw [(hcalling n).1, (hcalling n).2]
    rcases Links.mem_push hp with hp | ⟨hnew, -⟩
    · exact hgood.requests n t session c' (Links.mem_of_mem_set hlink hp)
    · obtain ⟨session', result, heq, -⟩ := hout _ hnew
      contradiction
  · intro t n session result hp
    rw [(hcalling n).1, (hcalling n).2]
    rcases Links.mem_push hp with hp | ⟨hnew, rfl, rfl⟩
    · exact hgood.answers t n session result (Links.mem_of_mem_set hlink hp)
    · obtain ⟨session', result', heq, hlt, hresult⟩ := hout _ hnew
      obtain ⟨rfl, rfl⟩ := Packet.answer.inj heq
      exact ⟨hlt, hresult⟩

theorem SUBR_of_channel {self : ℕ} (hchannel : nd.channel c ≠ none) (hsource : a ≠ self) (hself : c % 256 = self) :
  Node.SUBR self nd a c = (.none, { nd with
    channel_remote := Function.update nd.channel_remote c (some (insert a ((nd.channel_remote c).getD ∅))) })
  := (if_neg hchannel).trans (if_neg (not_or.mpr ⟨hsource, not_not_intro hself⟩))

/-- Only `channel_remote` is changed, and there the channel. -/
theorem SUBR_spec (self : ℕ) (nd : Node) (a c' : ℕ) :
  ∃ remote, (Node.SUBR self nd a c').2 = { nd with channel_remote := remote } ∧
    ∀ c, c ≠ c' → remote c = nd.channel_remote c
  := by
  unfold Node.SUBR
  dsimp only
  split_ifs
  · exact ⟨nd.channel_remote, rfl, fun _ _ => rfl⟩
  · exact ⟨nd.channel_remote, rfl, fun _ _ => rfl⟩
  · exact ⟨_, rfl, fun c hne => Function.update_of_ne hne _ _⟩

theorem USUBR_spec (self : ℕ) (nd : Node) (a c' : ℕ) :
  ∃ remote, Node.USUBR self nd a c' = { nd with channel_remote := remote } ∧
    (∀ c, c ≠ c' → remote c = nd.channel_remote c) ∧
    (remote c').getD ∅ = if a = self then (nd.channel_remote c').getD ∅
      else ((nd.channel_remote c').getD ∅).erase a
  := by
  unfold Node.USUBR
  split_ifs with hself
  · exact ⟨nd.channel_remote, rfl, fun _ _ => rfl, rfl⟩
  · split
    · next hnone =>
        refine ⟨nd.channel_remote, rfl, fun _ _ => rfl, ?_⟩
        rw [hnone]
        rfl
    · next group hgroup =>
        refine ⟨_, rfl, fun c hne => Function.update_of_ne hne _ _, ?_⟩
        rw [Function.update_self, hgroup]
        rfl

theorem Good.arrive_SUBR {rest : List Packet} (hgood : s.Good c)
    (hlink : s.link a b = .SUBR session c' :: rest) :
  ((s.take a b rest).arrive a b (.SUBR session c')).Good c
  := by
  obtain ⟨ha, hb, hlt, hcalling⟩ := hgood.requests a b session c' (by
    rw [hlink]
    exact List.mem_cons_self)
  have hown (heq : c' = c) : Node.SUBR b (s.node b) a c' = (.none, { s.node b with
      channel_remote := Function.update (s.node b).channel_remote c'
        (some (insert a (((s.node b).channel_remote c').getD ∅))) }) := by
    subst heq
    apply SUBR_of_channel
    · exact (hgood.nodes b).sound.created hb
    · rwa [hb]
    · exact hb.symm
  obtain ⟨remote, hspec, hother⟩ := SUBR_spec b (s.node b) a c'
  have harrive : (s.take a b rest).arrive a b (.SUBR session c') =
      (s.take a b rest).act b a ([.answer session (Node.SUBR b (s.node b) a c').1],
        { s.node b with channel_remote := remote }) := by
    rw [← hspec]
    rfl
  rw [harrive]
  apply hgood.arrive hlink
  · intro q hq
    obtain rfl := List.mem_singleton.mp hq
    refine ⟨session, _, rfl, hlt, ?_⟩
    intro source hsource
    rw [hown (hcalling _ hsource).symm]
  · intro n hn hcb
    rcases eq_or_ne c' c with rfl | hne
    · have hremote : remote c' = some (insert a (((s.node b).channel_remote c').getD ∅)) := by
        have hsame := hspec
        rw [hown rfl] at hsame
        have hremotes := congrArg (fun nd => nd.channel_remote c') hsame
        dsimp only at hremotes
        rw [Function.update_self] at hremotes
        exact hremotes.symm
      have heffect : effect c' (decide (n ∈ s.remotes c')) (.SUBR session c') = true := if_pos rfl
      rw [hremote, Option.getD_some, heffect, remotes, hb]
      split_ifs with hna
      · exact decide_eq_true (Finset.mem_insert.mpr (.inl hna))
      · apply decide_eq_decide.mpr
        exact Finset.mem_insert.trans (or_iff_right hna)
    · have heffect : effect c (decide (n ∈ s.remotes c)) (.SUBR session c') = decide (n ∈ s.remotes c) :=
        if_neg hne
      rw [hother c hne.symm, heffect, ite_self, remotes, hcb]

theorem Good.arrive_USUBR {rest : List Packet} (hgood : s.Good c)
    (hlink : s.link a b = .USUBR c' :: rest) :
  ((s.take a b rest).arrive a b (.USUBR c')).Good c
  := by
  obtain ⟨remote, hspec, hother, hsame⟩ := USUBR_spec b (s.node b) a c'
  have harrive : (s.take a b rest).arrive a b (.USUBR c') =
      (s.take a b rest).act b a ([], { s.node b with channel_remote := remote }) := by
    rw [← hspec]
    rfl
  rw [harrive]
  apply hgood.arrive hlink
  · exact nofun
  · intro n hn hcb
    rcases eq_or_ne c' c with rfl | hne
    · have heffect : effect c' (decide (n ∈ s.remotes c')) (.USUBR c') = false := if_pos rfl
      rw [hsame, heffect, remotes, hcb]
      split_ifs with hself hna hna
      · exact absurd (hna.trans hself) (hcb ▸ hn)
      · rfl
      · rw [hna]
        exact decide_eq_false (Finset.notMem_erase a _)
      · apply decide_eq_decide.mpr
        exact Finset.mem_erase.trans (and_iff_right hna)
    · have heffect : effect c (decide (n ∈ s.remotes c)) (.USUBR c') = decide (n ∈ s.remotes c) :=
        if_neg hne
      rw [hother c hne.symm, heffect, ite_self, remotes, hcb]

theorem Good.arrive_answer {rest : List Packet} {result : Answer} (hgood : s.Good c)
    (hlink : s.link a b = .answer session result :: rest) :
  ((s.take a b rest).arrive a b (.answer session result)).Good c
  := by
  obtain ⟨hlt, hanswer⟩ := hgood.answers a b session result (by
    rw [hlink]
    exact List.mem_cons_self)
  -- the message is taken first, and then the node goes on
  have htaken : (s.take a b rest).Good c := by
    have hsame : (s.take a b rest).act b a ([], { s.node b with
        channel_remote := (s.node b).channel_remote }) = s.take a b rest := by
      have hnode : Function.update (s.take a b rest).node b (s.node b) = s.node := Function.update_eq_self b s.node
      unfold System.act
      rw [Links.push_nil]
      exact congrArg (fun node => (⟨node, (s.take a b rest).link⟩ : System)) hnode
    rw [← hsame]
    apply hgood.arrive hlink
    · exact nofun
    · intro n hn hcb
      have heffect : effect c (decide (n ∈ s.remotes c)) (.answer session result) =
          decide (n ∈ s.remotes c) := rfl
      rw [heffect, ite_self, remotes, hcb]
  have hacts : ((s.take a b rest).node b).Acts c b c ((s.take a b rest).held c b)
      ([], (s.node b).answered session result) :=
    (htaken.nodes b).answered hanswer c
  have hact := htaken.act hacts
  rw [act_nil _ b _ a] at hact
  exact hact

/-! ### Runs -/

/-- No node loses its last subscriber of the channel while one of its calls about it is unanswered. -/
def Unhurried (c : ℕ) (s : System) : Label → Prop
  | .USUB n source c' => c' = c → n ≠ c % 256 → (s.node n).channel c = some {source} →
      ¬(s.node n).Calls c
  | _ => True

/-- Every step keeps what holds. -/
theorem Good.step {l : Label} (hgood : s.Good c) (hguard : Unhurried c s l) (hstep : s.step l = some s') :
  s'.Good c
  := by
  cases l with
  | SUB n source c' =>
      obtain rfl := Option.some.inj hstep
      exact hgood.act ((hgood.nodes n).SUB source c')
  | USUB n source c' =>
      obtain rfl := Option.some.inj hstep
      exact hgood.act ((hgood.nodes n).USUB hguard)
  | located n i found =>
      unfold System.step at hstep
      dsimp only at hstep
      split at hstep
      · contradiction
      · next w hw =>
          obtain rfl := Option.some.inj hstep
          exact hgood.act ((hgood.nodes n).located hw found)
  | receive a b =>
      unfold System.step at hstep
      dsimp only at hstep
      split at hstep
      · contradiction
      · next p rest hlink =>
          obtain rfl := Option.some.inj hstep
          cases p with
          | SUBR session c' => exact hgood.arrive_SUBR hlink
          | answer session result => exact hgood.arrive_answer hlink
          | USUBR c' => exact hgood.arrive_USUBR hlink

theorem Started.good (hstarted : s.Started) (hchannel : (s.node (c % 256)).channel c ≠ none) :
  s.Good c
  := by
  have hheld (n : ℕ) : s.held c n = false := by
    unfold held Links.fold remotes
    rw [hstarted.link, hstarted.remote]
    exact decide_eq_false (Finset.notMem_empty n)
  constructor
  · intro n
    constructor
    · constructor
      · rintro rfl
        exact hchannel
      · intro hn hempty
        rcases hstarted.channel n c with hnone | ⟨heq, -⟩
        · cases hnone.symm.trans hempty
        · exact hn heq
      · intro group hgroup
        rcases hstarted.channel n c with hnone | ⟨-, hempty, hzero⟩
        · cases hnone.symm.trans hgroup
        · obtain rfl := Option.some.inj (hempty.symm.trans hgroup)
          exact hzero
      · exact fun session _ => hstarted.calling n session
      · rw [hstarted.looking n]
        exact nofun
      · rw [hstarted.looking n]
        exact List.not_mem_nil
    · intro hn
      rw [hheld]
      apply iff_of_false
      · exact nofun
      · rintro (hsome | ⟨session, source, hcalling⟩)
        · rcases hstarted.channel n c with hnone | ⟨heq, -⟩
          · exact hsome hnone
          · exact hn heq
        · rw [hstarted.calling n session] at hcalling
          contradiction
    · rw [hheld]
      exact fun _ => nofun
  · intro n b session c' hp
    rw [hstarted.link n b] at hp
    contradiction
  · intro b n session result hp
    rw [hstarted.link b n] at hp
    contradiction

theorem good_of_reaches (hrun : (machine c).Reaches (Unhurried c) s) :
  s.Good c
  := by
  apply Machine.invariant _ _ hrun
  · rintro s ⟨hstarted, hchannel⟩
    exact hstarted.good hchannel
  · intro s l s' hgood hguard hstep
    exact hgood.step hguard hstep

/-- No message is on its way, and no `SUB` waits. -/
structure Settled (s : System) : Prop where
  link : ∀ a b, s.link a b = []
  looking : ∀ n, (s.node n).looking = []
  calling : ∀ n session, (s.node n).calling session = none

/-- The node of the channel knows those with subscribers, and all subscribers are counted. -/
structure Consistent (s : System) (c : ℕ) : Prop where
  remote : ∀ n, n ≠ c % 256 →
    ((∃ source group, (s.node n).channel c = some group ∧ source ∈ group) ↔
      ∃ group, (s.node (c % 256)).channel_remote c = some group ∧ n ∈ group)
  counted : ∀ n group, (s.node n).channel c = some group → (s.node n).channel_n c = some (group.card : ℤ)

/-- If no node loses its last subscriber while one of its calls is unanswered, subscriptions are consistent
whenever everything has settled. -/
theorem subscriptions_consistent (hrun : (machine c).Reaches (Unhurried c) s) (hsettled : s.Settled) :
  s.Consistent c
  := by
  have hgood := good_of_reaches hrun
  constructor
  · intro n hn
    have hnode := hgood.nodes n
    have hheld : s.held c n = decide (n ∈ s.remotes c) := by
      unfold held Links.fold
      rw [hsettled.link]
      rfl
    have hremotes : n ∈ s.remotes c ↔ ∃ group, (s.node (c % 256)).channel_remote c = some group ∧ n ∈ group := by
      unfold remotes
      cases (s.node (c % 256)).channel_remote c with
      | none =>
          apply iff_of_false
          · exact Finset.notMem_empty n
          · rintro ⟨group, ⟨⟩, -⟩
      | some group =>
          constructor
          · exact fun hmem => ⟨group, rfl, hmem⟩
          · rintro ⟨group', ⟨⟩, hmem⟩
            exact hmem
    rw [← hremotes, ← decide_eq_true_iff (p := n ∈ s.remotes c), ← hheld, hnode.held hn]
    constructor
    · rintro ⟨source, group, hgroup, hmem⟩
      rw [hgroup]
      exact .inl nofun
    · rintro (hsome | ⟨session, source, hcalling⟩)
      · obtain ⟨group, hgroup⟩ := Option.ne_none_iff_exists'.mp hsome
        have hne : group ≠ ∅ := by
          rintro rfl
          exact hnode.sound.nonempty hn hgroup
        obtain ⟨source, hmem⟩ := Finset.nonempty_iff_ne_empty.mpr hne
        exact ⟨source, group, hgroup, hmem⟩
      · rw [hsettled.calling n session] at hcalling
        contradiction
  · exact fun n => (hgood.nodes n).sound.counted

/-! ### Two nodes -/

/-- A node of which nothing is known. -/
def idle : Node where
  channel := fun _ => none
  channel_n := fun _ => none
  channel_remote := fun _ => none
  node_address := fun _ => false
  looking := []
  calling := fun _ => none
  session := 0

/-- The node 1 with a channel. -/
def owner : Node :=
  idle.setChannel 1 (some ∅) (some 0)

/-- The nodes 1 and 2, with what is on its way from one to the other. -/
def pair (A B : Node) (p q : List Packet) : System where
  node n := if n = 1 then A else if n = 2 then B else idle
  link a b := if a = 1 ∧ b = 2 then p else if a = 2 ∧ b = 1 then q else []

variable {A B : Node} {q : List Packet} {ps : List Packet} {ok : System → Label → Prop}

theorem pair_node_two (A B : Node) (ps q : List Packet) :
  (pair A B ps q).node 2 = B
  := rfl

theorem set_two_one (A B : Node) (ps q q' : List Packet) :
  (pair A B ps q).link.set 2 1 q' = (pair A B ps q').link
  := by
  funext a b
  rcases Decidable.em (a = 2 ∧ b = 1) with ⟨rfl, rfl⟩ | hne
  · exact Links.set_self _ _ _ _
  · rw [Links.set_of_ne hne]
    unfold pair
    dsimp only
    rw [if_neg hne, if_neg hne]

theorem set_one_two (A B : Node) (ps ps' q : List Packet) :
  (pair A B ps q).link.set 1 2 ps' = (pair A B ps' q).link
  := by
  funext a b
  rcases Decidable.em (a = 1 ∧ b = 2) with ⟨rfl, rfl⟩ | hne
  · exact Links.set_self _ _ _ _
  · rw [Links.set_of_ne hne]
    unfold pair
    dsimp only
    rw [if_neg hne, if_neg hne]

theorem act_two (A B : Node) (ps q : List Packet) (r : List Packet × Node) :
  (pair A B ps q).act 2 1 r = pair A r.2 ps (q ++ r.1)
  := by
  have hnode : Function.update (pair A B ps q).node 2 r.2 = (pair A r.2 ps q).node := by
    funext n
    rcases eq_or_ne n 2 with rfl | hne
    · exact Function.update_self _ _ _
    · rw [Function.update_of_ne hne]
      unfold pair
      dsimp only
      rw [if_neg hne, if_neg hne]
  unfold act Links.push
  rw [hnode, set_two_one]
  rfl

theorem act_one (A B : Node) (ps q : List Packet) (r : List Packet × Node) :
  (pair A B ps q).act 1 2 r = pair r.2 B (ps ++ r.1) q
  := by
  have hnode : Function.update (pair A B ps q).node 1 r.2 = (pair r.2 B ps q).node := by
    funext n
    rcases eq_or_ne n 1 with rfl | hne
    · exact Function.update_self _ _ _
    · rw [Function.update_of_ne hne]
      unfold pair
      dsimp only
      rw [if_neg hne, if_neg hne]
  unfold act Links.push
  rw [hnode, set_one_two]
  rfl

/-- A request of the node 2 for the channel 1. -/
theorem reaches_SUB (source : ℕ) (h : (machine 1).Reaches ok (pair A B ps q))
    (hok : ok (pair A B ps q) (.SUB 2 source 1)) :
  (machine 1).Reaches ok (pair A (Node.SUB 2 B source 1).2 ps (q ++ (Node.SUB 2 B source 1).1))
  := by
  apply Machine.Reaches.step h hok
  exact congrArg some (act_two A B ps q _)

theorem reaches_USUB (source : ℕ) (h : (machine 1).Reaches ok (pair A B ps q))
    (hok : ok (pair A B ps q) (.USUB 2 source 1)) :
  (machine 1).Reaches ok (pair A (Node.USUB 2 B source 1).2 ps (q ++ (Node.USUB 2 B source 1).1))
  := by
  apply Machine.Reaches.step h hok
  exact congrArg some (act_two A B ps q _)

theorem reaches_located (source : ℕ) (rest : List Wait) (h : (machine 1).Reaches ok (pair A B ps q))
    (hlooking : B.looking = .SUB source 1 :: rest) (hok : ok (pair A B ps q) (.located 2 0 true)) :
  (machine 1).Reaches ok
    (pair A (B.located 0 (.SUB source 1) true).2 ps (q ++ (B.located 0 (.SUB source 1) true).1))
  := by
  apply Machine.Reaches.step h hok
  have hstep : (pair A B ps q).step (.located 2 0 true) =
      some ((pair A B ps q).act 2 1 (B.located 0 (.SUB source 1) true)) := by
    rw [System.step, pair_node_two, hlooking]
    rfl
  exact hstep.trans (congrArg some (act_two A B ps q _))

theorem reaches_SUBR {session : ℕ} (h : (machine 1).Reaches ok (pair A B ps (.SUBR session 1 :: q)))
    (hok : ok (pair A B ps (.SUBR session 1 :: q)) (.receive 2 1)) :
  (machine 1).Reaches ok
    (pair (Node.SUBR 1 A 2 1).2 B (ps ++ [.answer session (Node.SUBR 1 A 2 1).1]) q)
  := by
  apply Machine.Reaches.step h hok
  have htake : ({ pair A B ps (.SUBR session 1 :: q) with
      link := (pair A B ps (.SUBR session 1 :: q)).link.set 2 1 q } : System) = pair A B ps q := by
    rw [set_two_one]
    rfl
  have hstep : (pair A B ps (.SUBR session 1 :: q)).step (.receive 2 1) =
      some ((pair A B ps q).act 1 2 ([.answer session (Node.SUBR 1 A 2 1).1], (Node.SUBR 1 A 2 1).2)) := by
    rw [← htake]
    rfl
  exact hstep.trans (congrArg some (act_one A B ps q _))

theorem reaches_USUBR (h : (machine 1).Reaches ok (pair A B ps (.USUBR 1 :: q)))
    (hok : ok (pair A B ps (.USUBR 1 :: q)) (.receive 2 1)) :
  (machine 1).Reaches ok (pair (Node.USUBR 1 A 2 1) B (ps ++ []) q)
  := by
  apply Machine.Reaches.step h hok
  have htake : ({ pair A B ps (.USUBR 1 :: q) with
      link := (pair A B ps (.USUBR 1 :: q)).link.set 2 1 q } : System) = pair A B ps q := by
    rw [set_two_one]
    rfl
  have hstep : (pair A B ps (.USUBR 1 :: q)).step (.receive 2 1) =
      some ((pair A B ps q).act 1 2 ([], Node.USUBR 1 A 2 1)) := by
    rw [← htake]
    rfl
  exact hstep.trans (congrArg some (act_one A B ps q _))

theorem reaches_answer {session : ℕ} {result : Answer}
    (h : (machine 1).Reaches ok (pair A B (.answer session result :: ps) q))
    (hok : ok (pair A B (.answer session result :: ps) q) (.receive 1 2)) :
  (machine 1).Reaches ok (pair A (B.answered session result) ps (q ++ []))
  := by
  apply Machine.Reaches.step h hok
  have htake : ({ pair A B (.answer session result :: ps) q with
      link := (pair A B (.answer session result :: ps) q).link.set 1 2 ps } : System) = pair A B ps q := by
    rw [set_one_two]
    rfl
  have hstep : (pair A B (.answer session result :: ps) q).step (.receive 1 2) =
      some ((pair A B ps q).act 2 1 ([], B.answered session result)) := by
    rw [← htake]
    rfl
  exact hstep.trans (congrArg some (act_two A B ps q _))

theorem pair_started :
  (machine 1).init (pair owner idle [] [])
  := by
  have hidle (n : ℕ) (hn : n ≠ 1) : (pair owner idle [] []).node n = idle := by
    unfold pair
    dsimp only
    rw [if_neg hn, ite_self]
  refine ⟨?_, by decide⟩
  constructor
  · intro n c
    rcases eq_or_ne n 1 with rfl | hn
    · rcases eq_or_ne c 1 with rfl | hc
      · exact .inr ⟨rfl, rfl, rfl⟩
      · exact .inl (Node.setChannel_channel_of_ne hc _ _)
    · rw [hidle n hn]
      exact .inl rfl
  · intro n c
    rcases eq_or_ne n 1 with rfl | hn
    · rfl
    · rw [hidle n hn]
      rfl
  · intro n
    rcases eq_or_ne n 1 with rfl | hn
    · rfl
    · rw [hidle n hn]
      rfl
  · intro n session
    rcases eq_or_ne n 1 with rfl | hn
    · rfl
    · rw [hidle n hn]
      rfl
  · intro a b
    unfold pair
    dsimp only
    rw [ite_self, ite_self]

/-- Nothing is on its way between the nodes. -/
theorem pair_settled (hA : A.looking = [] ∧ ∀ session, A.calling session = none)
    (hB : B.looking = [] ∧ ∀ session, B.calling session = none) :
  (pair A B [] []).Settled
  := by
  have hnode (n : ℕ) : ((pair A B [] []).node n).looking = [] ∧
      ∀ session, ((pair A B [] []).node n).calling session = none := by
    unfold pair
    dsimp only
    split_ifs
    · exact hA
    · exact hB
    · exact ⟨rfl, fun _ => rfl⟩
  constructor
  · intro a b
    unfold pair
    dsimp only
    rw [ite_self, ite_self]
  · exact fun n => (hnode n).1
  · exact fun n => (hnode n).2

/-- The node 2 once the service 10 has asked for the channel, and the data center for the address. -/
def first : Node :=
  ((Node.SUB 2 idle 10 1).2.located 0 (.SUB 10 1) true).2

/-- The node 1 once it has been called. -/
def asked : Node :=
  (Node.SUBR 1 owner 2 1).2

theorem reaches_first (hok : ∀ s l, (∀ n source c, l ≠ .USUB n source c) → ok s l) :
  (machine 1).Reaches ok (pair owner first [] [.SUBR 0 1])
  := by
  have hlook := reaches_SUB 10 (.init pair_started) (hok _ _ nofun)
  exact reaches_located 10 [] hlook rfl (hok _ _ nofun)

theorem subscriptions_consistent_one :
  10 ∈ ((first.answered 0 .none).channel 1).getD ∅ ∧ 2 ∈ (asked.channel_remote 1).getD ∅
  := by
  have hok (s : System) (l : Label) (hl : ∀ n source c, l ≠ .USUB n source c) : Unhurried 1 s l := by
    cases l with
    | USUB n source c => exact absurd rfl (hl n source c)
    | SUB n source c => trivial
    | located n i found => trivial
    | receive a b => trivial
  have hasked := reaches_SUBR (reaches_first hok) (hok _ _ nofun)
  have hanswered : (machine 1).Reaches (Unhurried 1) (pair asked (first.answered 0 .none) [] []) :=
    reaches_answer hasked (hok _ _ nofun)
  have hsettled : (pair asked (first.answered 0 .none) [] []).Settled := by
    apply pair_settled
    · exact ⟨rfl, fun _ => rfl⟩
    · refine ⟨rfl, fun session => ?_⟩
      rcases eq_or_ne session 0 with rfl | hne
      · rfl
      · exact (Function.update_of_ne hne _ _).trans (Function.update_of_ne hne _ _)
  have hjoined : 10 ∈ ((first.answered 0 .none).channel 1).getD ∅ := by decide
  obtain ⟨group, hgroup, hmem⟩ :=
    ((subscriptions_consistent hanswered hsettled).remote 2 (by decide)).mp ⟨10, {10}, by decide, by decide⟩
  have hgroup : asked.channel_remote 1 = some group := hgroup
  rw [hgroup]
  exact ⟨hjoined, hmem⟩

/-- The node 2 once the service 11 has asked for the channel too. -/
def second : Node :=
  (Node.SUB 2 first 11 1).2

/-- The node 2 once the service 10 has subscribed and left again. -/
def left : Node :=
  (Node.USUB 2 (second.answered 0 .none) 10 1).2

/-- The node 1 once it has been called twice. -/
def askedTwice : Node :=
  (Node.SUBR 1 asked 2 1).2

/-- The service 11 becomes a subscriber after its node has said that it has none. -/
theorem subscriber_dropped :
  ∃ s, (machine 1).Reachable s ∧ s.Settled ∧ ¬s.Consistent 1
  := by
  have hsecond : (machine 1).Reachable (pair owner second [] [.SUBR 0 1, .SUBR 1 1]) :=
    reaches_SUB 11 (reaches_first fun _ _ _ => trivial) trivial
  have hasked : (machine 1).Reachable (pair asked second [.answer 0 .none] [.SUBR 1 1]) :=
    reaches_SUBR hsecond trivial
  have htwice : (machine 1).Reachable (pair askedTwice second [.answer 0 .none, .answer 1 .none] []) :=
    reaches_SUBR hasked trivial
  have hjoined : (machine 1).Reachable (pair askedTwice (second.answered 0 .none) [.answer 1 .none] []) :=
    reaches_answer htwice trivial
  have hleft : (machine 1).Reachable (pair askedTwice left [.answer 1 .none] [.USUBR 1]) :=
    reaches_USUB 10 hjoined trivial
  have hback : (machine 1).Reachable (pair askedTwice (left.answered 1 .none) [] [.USUBR 1]) :=
    reaches_answer hleft trivial
  have hdropped : (machine 1).Reachable
      (pair (Node.USUBR 1 askedTwice 2 1) (left.answered 1 .none) [] []) :=
    reaches_USUBR hback trivial
  refine ⟨_, hdropped, ?_, ?_⟩
  · apply pair_settled
    · exact ⟨rfl, fun _ => rfl⟩
    · refine ⟨rfl, fun session => ?_⟩
      rcases eq_or_ne session 1 with rfl | hone
      · rfl
      · rcases eq_or_ne session 0 with rfl | hzero
        · rfl
        · have hsecond : second.calling session = none :=
            (Function.update_of_ne hone _ _).trans (Function.update_of_ne hzero _ _)
          have hleft : left.calling session = none :=
            (Function.update_of_ne hzero _ _).trans hsecond
          exact (Function.update_of_ne hone _ _).trans hleft
  · intro hconsistent
    obtain ⟨group, hgroup, hmem⟩ :=
      (hconsistent.remote 2 (by decide)).mp ⟨11, {11}, by decide, by decide⟩
    have hempty : (Node.USUBR 1 askedTwice 2 1).channel_remote 1 = some ∅ := by decide
    obtain rfl := Option.some.inj (hempty.symm.trans hgroup)
    exact Finset.notMem_empty 2 hmem

end System

end Multicast

end Skynet
