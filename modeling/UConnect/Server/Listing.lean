/-
  Server/Listing.lean --- the listing of topics.

  `Board` is what the listing is for: topics in the order they were made, each
  with the mode it was made with and whether it is still listed.  It is read off
  the marks of a run alone.  The registry keeps the same facts in its topics and
  in `listing_`, under numbers from a counter of 32 bits.  The two agree for as
  long as the counter has not come round; the topic that is made when it does
  gets the number zero.
-/
import UConnect.Server.Quotas
import Mathlib.Data.List.Induction

set_option autoImplicit false

namespace UConnect.Server

open UConnect UConnect.Foundation UConnect.Crypto

/-! ## The board

The listing as a list of topics in the order of their making, moved by the marks
of a run. -/

/-- Topics in the order they were made. -/
structure Board where
  /-- How many were made. -/
  count : Nat := 0
  /-- The number of a topic's last making, its mode and whether it is listed. -/
  standing : TopicId → Option (Nat × TopicMode × Bool) := fun _ => none

namespace Board

open Registry

/-- A mark is put up. -/
def mark (b : Board) : Mark → Board
  | .made t mode =>
      { count := b.count + 1
        standing := Function.update b.standing t (some (b.count + 1, mode, true)) }
  | .hidden t =>
      { b with
        standing := Function.update b.standing t
          ((b.standing t).map fun s => (s.1, s.2.1, false)) }

/-- The board of a run's marks. -/
def ofMarks (marks : List Mark) : Board := marks.foldl mark {}

/-- A board is made of its marks one after another. -/
theorem ofMarks_append (ms ns : List Mark) : ofMarks (ms ++ ns) = ns.foldl mark (ofMarks ms) :=
  List.foldl_append

/-- The number of a topic's last making, zero if there was none. -/
def number (b : Board) (t : TopicId) : Nat := ((b.standing t).map (·.1)).getD 0

theorem number_eq {b : Board} {t : TopicId} {s : Nat × TopicMode × Bool}
    (h : b.standing t = some s) : b.number t = s.1 := by
  unfold number
  rw [h]
  rfl

/-- Numbers start at one, run up to the count, and no two topics share one. -/
structure Wf (b : Board) : Prop where
  bounds : ∀ t s, b.standing t = some s → 0 < s.1 ∧ s.1 ≤ b.count
  distinct : ∀ t t' s s', b.standing t = some s → b.standing t' = some s' → s.1 = s'.1 → t = t'

theorem Wf.empty : Wf {} := by
  refine ⟨?_, ?_⟩
  · intro t s h
    cases h
  · intro t t' s s' h
    cases h

theorem Wf.mark {b : Board} (h : b.Wf) (m : Mark) : (b.mark m).Wf := by
  cases m with
  | made t mode =>
      have hcases : ∀ t' s, (b.mark (.made t mode)).standing t' = some s →
          (t' = t ∧ s.1 = b.count + 1) ∨ b.standing t' = some s := by
        intro t' s hs
        simp only [Board.mark, Function.update_apply] at hs
        split at hs
        · rename_i ht
          cases hs
          exact Or.inl ⟨ht, rfl⟩
        · exact Or.inr hs
      refine ⟨?_, ?_⟩
      · intro t' s hs
        show 0 < s.1 ∧ s.1 ≤ b.count + 1
        rcases hcases t' s hs with ⟨-, hnum⟩ | hold
        · omega
        · have := h.bounds t' s hold
          omega
      · intro t₁ t₂ s₁ s₂ h₁ h₂ heq
        rcases hcases t₁ s₁ h₁ with ⟨rfl, hn₁⟩ | hold₁
        · rcases hcases t₂ s₂ h₂ with ⟨rfl, -⟩ | hold₂
          · rfl
          · have := h.bounds t₂ s₂ hold₂
            omega
        · rcases hcases t₂ s₂ h₂ with ⟨rfl, hn₂⟩ | hold₂
          · have := h.bounds t₁ s₁ hold₁
            omega
          · exact h.distinct t₁ t₂ s₁ s₂ hold₁ hold₂ heq
  | hidden t =>
      have hback : ∀ t' s, (b.mark (.hidden t)).standing t' = some s →
          ∃ s₀, b.standing t' = some s₀ ∧ s.1 = s₀.1 := by
        intro t' s hs
        simp only [Board.mark, Function.update_apply] at hs
        split at hs
        · rename_i ht
          obtain ⟨s₀, hs₀, rfl⟩ := Option.map_eq_some_iff.mp hs
          exact ⟨s₀, ht ▸ hs₀, rfl⟩
        · exact ⟨s, hs, rfl⟩
      refine ⟨?_, ?_⟩
      · intro t' s hs
        obtain ⟨s₀, hs₀, hnum⟩ := hback t' s hs
        rw [hnum]
        exact h.bounds t' s₀ hs₀
      · intro t₁ t₂ s₁ s₂ h₁ h₂ heq
        obtain ⟨s₁', hs₁, hn₁⟩ := hback t₁ s₁ h₁
        obtain ⟨s₂', hs₂, hn₂⟩ := hback t₂ s₂ h₂
        exact h.distinct t₁ t₂ s₁' s₂' hs₁ hs₂ (hn₁.symm.trans (heq.trans hn₂))

theorem wf_ofMarks (marks : List Mark) : (ofMarks marks).Wf := by
  suffices h : ∀ b : Board, b.Wf → (marks.foldl Board.mark b).Wf from h _ Wf.empty
  induction marks with
  | nil => exact fun b hb => hb
  | cons m marks ih => exact fun b hb => ih _ (hb.mark m)

/-- Marks only add to the count. -/
theorem count_le_foldl (b : Board) (marks : List Mark) : b.count ≤ (marks.foldl mark b).count := by
  induction marks generalizing b with
  | nil => exact Nat.le_refl _
  | cons m marks ih =>
      refine Nat.le_trans ?_ (ih (b.mark m))
      cases m with
      | made t mode => exact Nat.le_succ _
      | hidden t => exact Nat.le_refl _

end Board

namespace Registry

/-! ## The registry follows the board

Each topic stands in the registry under the number of its making, and in the
listing as long as it was not hidden. -/

/-- What the listing depends on of a topic. -/
def shelf (s : TopicState) : Nat × TopicMode × Bool := (s.order, s.mode, s.listed)

/-- The registry's topics stand as on the board, under numbers of 32 bits, and
its listing is the listed ones, unless the counter came round. -/
structure Shelved (b : Board) (r : Registry) : Prop where
  next : r.nextOrder = (b.count + 1) % 2 ^ 32
  topics : ∀ t s, r.topics.lookup t = some s →
    ∃ o, b.standing t = some (o, s.mode, s.listed) ∧ s.order = o % 2 ^ 32
  listing : b.count < 2 ^ 32 → ∀ o t, r.listing.lookup o = some t ↔
    ∃ s, r.topics.lookup t = some s ∧ s.order = o ∧ s.listed = true

section Shelved

variable {P : Primitives} {key : SymKey} {known : List (TopicId × Endpoint)} {now : Instant}
  {b : Board} {r r' : Registry}

/-- The board sees of the registry the numbers, the modes and the listing, and
nothing else. -/
theorem Shelved.congr (h : r.Shelved b)
    (htopics : ∀ t, (r'.topics.lookup t).map shelf = (r.topics.lookup t).map shelf)
    (hlisting : r'.listing = r.listing) (hnext : r'.nextOrder = r.nextOrder) : r'.Shelved b := by
  have hback : ∀ t s, r'.topics.lookup t = some s →
      ∃ s₀, r.topics.lookup t = some s₀ ∧ shelf s₀ = shelf s := by
    intro t s hs
    have hmap := htopics t
    rw [hs, Option.map_some] at hmap
    exact Option.map_eq_some_iff.mp hmap.symm
  have hforth : ∀ t s, r.topics.lookup t = some s →
      ∃ s', r'.topics.lookup t = some s' ∧ shelf s' = shelf s := by
    intro t s hs
    have hmap := htopics t
    rw [hs, Option.map_some] at hmap
    exact Option.map_eq_some_iff.mp hmap
  refine ⟨hnext.trans h.next, fun t s hs => ?_, fun hlt o t => ?_⟩
  · obtain ⟨s₀, hs₀, hsame⟩ := hback t s hs
    simp only [shelf, Prod.mk.injEq] at hsame
    rw [← hsame.1, ← hsame.2.1, ← hsame.2.2]
    exact h.topics t s₀ hs₀
  · rw [hlisting, h.listing hlt]
    constructor
    · rintro ⟨s, hs, ho, hl⟩
      obtain ⟨s', hs', hsame⟩ := hforth t s hs
      simp only [shelf, Prod.mk.injEq] at hsame
      exact ⟨s', hs', hsame.1.trans ho, hsame.2.2.trans hl⟩
    · rintro ⟨s, hs, ho, hl⟩
      obtain ⟨s', hs', hsame⟩ := hback t s hs
      simp only [shelf, Prod.mk.injEq] at hsame
      exact ⟨s', hs', hsame.1.trans ho, hsame.2.2.trans hl⟩

/-- Until the counter comes round a topic's number is the one on the board. -/
theorem Shelved.standing (h : r.Shelved b) (hwf : b.Wf) (hlt : b.count < 2 ^ 32) {t : TopicId}
    {s : TopicState} (hs : r.topics.lookup t = some s) : b.standing t = some (shelf s) := by
  obtain ⟨o, hstand, horder⟩ := h.topics t s hs
  have hbound := (hwf.bounds t _ hstand).2
  rw [Nat.mod_eq_of_lt (Nat.lt_of_le_of_lt hbound hlt)] at horder
  rw [hstand, shelf, horder]

/-- The counter of fresh members has no place on the shelf. -/
theorem map_shelf_modifyAt_fresh (m : AList fun _ : TopicId => TopicState) (t t' : TopicId)
    (f : Nat → Nat) :
    ((modifyAt m t fun s => { s with fresh := f s.fresh }).lookup t').map shelf =
      (m.lookup t').map shelf :=
  map_lookup_modifyAt m t t' fun _ => rfl

theorem Shelved.forgetFresh (h : r.Shelved b) (e : Entry) : (r.forgetFresh e).Shelved b := by
  unfold Registry.forgetFresh
  split
  · exact h.congr (fun t => map_shelf_modifyAt_fresh _ _ _ _) rfl rfl
  · exact h

theorem Shelved.markFresh (h : r.Shelved b) (dev : DevId) (now : Instant) :
    (r.markFresh dev now).Shelved b := by
  unfold Registry.markFresh
  split
  · exact h
  · rename_i e _
    refine (h.forgetFresh e).congr (fun t => ?_) rfl rfl
    exact map_shelf_modifyAt_fresh _ _ _ _

/-- Erasing a topic's number takes that topic off the listing and no other: no
two share a number. -/
theorem Shelved.lookup_erase_order (h : r.Shelved b) (hwf : b.Wf) (hlt : b.count < 2 ^ 32)
    {t : TopicId} {s₀ : TopicState} (ht : r.topics.lookup t = some s₀) (o : Nat) (t' : TopicId) :
    (r.listing.erase s₀.order).lookup o = some t' ↔
      t' ≠ t ∧ ∃ s, r.topics.lookup t' = some s ∧ s.order = o ∧ s.listed = true := by
  rw [lookup_erase_ite]
  constructor
  · intro hfind
    split at hfind
    · cases hfind
    · rename_i hne
      obtain ⟨s, hs, ho, hl⟩ := (h.listing hlt o t').mp hfind
      refine ⟨?_, s, hs, ho, hl⟩
      rintro rfl
      cases ht.symm.trans hs
      exact hne ho.symm
  · rintro ⟨hother, s, hs, ho, hl⟩
    have hne : o ≠ s₀.order := by
      rintro rfl
      exact hother (hwf.distinct t' t _ _ (h.standing hwf hlt hs) (h.standing hwf hlt ht) ho)
    rw [if_neg hne]
    exact (h.listing hlt o t').mpr ⟨s, hs, ho, hl⟩

theorem listing_hideTopic (r : Registry) (t : TopicId) :
    (r.hideTopic t).listing = match r.topics.lookup t with
      | some s => r.listing.erase s.order
      | none => r.listing := rfl

/-- A hidden topic leaves the listing and keeps its number. -/
theorem Shelved.hideTopic (h : r.Shelved b) (hwf : b.Wf) (t : TopicId) :
    (r.hideTopic t).Shelved (b.mark (.hidden t)) := by
  have hlook : ∀ t', (r.hideTopic t).topics.lookup t' =
      if t' = t then (r.topics.lookup t).map fun s => { s with listed := false }
      else r.topics.lookup t' := fun t' => lookup_modifyAt r.topics t t' _
  have hlist := r.listing_hideTopic t
  refine ⟨h.next, fun t' s hs => ?_, fun hlt o t' => ?_⟩
  · rw [hlook] at hs
    simp only [Board.mark, Function.update_apply]
    split at hs
    · rename_i ht
      obtain ⟨s₀, hs₀, rfl⟩ := Option.map_eq_some_iff.mp hs
      obtain ⟨o, hstand, horder⟩ := h.topics t s₀ hs₀
      rw [if_pos ht, hstand, Option.map_some]
      exact ⟨o, rfl, horder⟩
    · rename_i ht
      rw [if_neg ht]
      exact h.topics t' s hs
  · rw [hlook, hlist]
    cases ht : r.topics.lookup t with
    | none =>
        dsimp only
        rw [h.listing hlt]
        split
        · rename_i heq
          rw [heq, ht]
          rfl
        · rfl
    | some s₀ =>
        dsimp only
        rw [h.lookup_erase_order hwf hlt ht]
        split
        · rename_i heq
          refine ⟨fun hboth => absurd heq hboth.1, ?_⟩
          rintro ⟨s, hs, -, hl⟩
          cases hs
          cases hl
        · rename_i hother
          exact ⟨fun hboth => hboth.2, fun hs => ⟨hother, hs⟩⟩

theorem shelf_removeMember (s : TopicState) (dev : DevId) : shelf (s.removeMember dev) = shelf s := by
  unfold TopicState.removeMember
  split
  · rfl
  · rfl

/-- A topic goes with its last member, from the listing too. -/
theorem Shelved.leaveTopic (h : r.Shelved b) (hwf : b.Wf) (dev : DevId) (e : Entry) :
    (r.leaveTopic dev e).Shelved b := by
  unfold Registry.leaveTopic
  cases ht : r.topics.lookup e.topicId with
  | none => exact h
  | some s₀ =>
      have hshelf : shelf { s₀.removeMember dev with
          perIp := decrement (s₀.removeMember dev).perIp (ipKey e.boundAddr) } = shelf s₀ :=
        shelf_removeMember s₀ dev
      have horder : (s₀.removeMember dev).order = s₀.order := congrArg Prod.fst hshelf
      dsimp only
      split
      · refine ⟨h.next, fun t s hs => ?_, fun hlt o t => ?_⟩
        · rw [lookup_erase_ite] at hs
          split at hs
          · cases hs
          · exact h.topics t s hs
        · rw [horder, h.lookup_erase_order hwf hlt ht, lookup_erase_ite]
          split
          · rename_i heq
            refine ⟨fun hboth => absurd heq hboth.1, ?_⟩
            rintro ⟨s, hs, -⟩
            cases hs
          · rename_i hother
            exact ⟨fun hboth => hboth.2, fun hs => ⟨hother, hs⟩⟩
      · refine h.congr (fun t => ?_) rfl rfl
        rw [lookup_insert_ite]
        split
        · rename_i heq
          rw [heq, ht, Option.map_some, Option.map_some, hshelf]
        · rfl

/-- A registration past the quotas: the topic is there already, or is made. -/
theorem Shelved.addRecord (h : r.Shelved b) (hwf : b.Wf) (hsound : r.Sound P key known)
    (msg : Register) (dev : DevId) (src : Endpoint) (owner : ConnKey) :
    (r.addRecord msg dev src owner).Shelved ((r.births msg).foldl Board.mark b) := by
  unfold Registry.addRecord openTopic births
  cases ht : r.topics.lookup msg.id with
  | some s₀ =>
      have hin : msg.id ∈ r.topics := by
        rw [← AList.lookup_isSome, ht]
        rfl
      have hmembers : s₀.members.isEmpty = false := by
        have hview : r.view.topic msg.id = some s₀.roll := by simp only [view, ht, Option.map_some]
        have hne := hsound.topics.nonempty msg.id s₀.roll hview
        rw [← Bool.not_eq_true, List.isEmpty_iff]
        exact hne
      simp only [Option.getD_some, hmembers, Bool.false_eq_true, if_false, if_pos hin,
        List.foldl_nil]
      refine h.congr (fun t => ?_) rfl rfl
      rw [lookup_insert_ite]
      split
      · rename_i heq
        rw [heq, ht]
        rfl
      · rfl
  | none =>
      have hin : msg.id ∉ r.topics := AList.lookup_eq_none.mp ht
      simp only [Option.getD_none, List.isEmpty_nil, if_true, if_neg hin, List.foldl_cons,
        List.foldl_nil]
      refine ⟨?_, fun t s hs => ?_, fun hlt o t => ?_⟩
      · show incr 32 r.nextOrder = (b.count + 1 + 1) % 2 ^ 32
        rw [h.next, incr_mod]
      · simp only [lookup_insert_ite] at hs
        simp only [Board.mark, Function.update_apply]
        split at hs
        · rename_i heq
          cases hs
          rw [if_pos heq]
          exact ⟨b.count + 1, rfl, h.next⟩
        · rename_i hne
          rw [if_neg hne]
          exact h.topics t s hs
      · have hlt : b.count + 1 < 2 ^ 32 := hlt
        have hold : b.count < 2 ^ 32 := Nat.lt_of_succ_lt hlt
        have hnum : r.nextOrder = b.count + 1 := h.next.trans (Nat.mod_eq_of_lt hlt)
        simp only [lookup_insert_ite]
        constructor
        · intro hfind
          split at hfind
          · rename_i ho
            cases hfind
            rw [if_pos rfl]
            exact ⟨_, rfl, ho.symm, rfl⟩
          · obtain ⟨s, hs, ho, hl⟩ := (h.listing hold o t).mp hfind
            have hne : t ≠ msg.id := by
              rintro rfl
              rw [ht] at hs
              cases hs
            rw [if_neg hne]
            exact ⟨s, hs, ho, hl⟩
        · rintro ⟨s, hs, ho, hl⟩
          split at hs
          · rename_i heq
            cases hs
            rw [if_pos ho.symm, heq]
          · -- the topics that were there have smaller numbers
            have hbound := (hwf.bounds t _ (h.standing hwf hold hs)).2
            have hne : o ≠ r.nextOrder := by
              have hle : s.order ≤ b.count := hbound
              omega
            rw [if_neg hne]
            exact (h.listing hold o t).mpr ⟨s, hs, ho, hl⟩

/-- Every move of the registry keeps to the board. -/
theorem Shelved.move {hist ms : List Mark} (hsound : r.Sound P key known)
    (h : r.Shelved (Board.ofMarks hist)) (hm : Move P known now ms r r') :
    r'.Shelved (Board.ofMarks (hist ++ ms)) := by
  have hwf := Board.wf_ofMarks hist
  have hquiet : r'.Shelved (Board.ofMarks hist) → r'.Shelved (Board.ofMarks (hist ++ [])) := by
    rw [List.append_nil]
    exact id
  cases hm with
  | beside hb =>
      refine hquiet (h.congr (fun t => ?_) hb.listing hb.nextOrder)
      rw [hb.topics]
  | rewrite he _ _ _ _ => exact hquiet (h.congr (fun _ => rfl) rfl rfl)
  | @add _ msg src owner e hnew hquota hknown hdev htopic haddr =>
      have hadd : Shelved _ { r.addRecord msg e.devId src owner with
          byDev := r.byDev.insert e.devId e } :=
        (h.addRecord hwf hsound msg e.devId src owner).congr (fun _ => rfl) rfl rfl
      rw [Board.ofMarks_append]
      exact hadd.markFresh _ now
  | mark he => exact hquiet (h.markFresh _ now)
  | hide =>
      rw [Board.ofMarks_append]
      exact h.hideTopic hwf _
  | @erase _ dev =>
      refine hquiet ?_
      unfold Registry.eraseEntry
      split
      · exact h
      · rename_i e _
        exact ((h.forgetFresh e).leaveTopic hwf dev e).congr (fun _ => rfl) rfl rfl
  | expire he hstale => exact hquiet (h.congr (fun t => map_shelf_modifyAt_fresh _ _ _ _) rfl rfl)

/-- An empty registry has an empty board. -/
theorem Shelved.init (cfg : RegistryConfig) (secret : SymKey) :
    Shelved {} { cfg := cfg, secret := secret } := by
  refine ⟨rfl, ?_, ?_⟩
  · intro t s hs
    cases hs
  · intro _ o t
    constructor
    · intro hlook
      cases hlook
    · rintro ⟨s, hs, -⟩
      cases hs

end Shelved

/-! ## How long the listing is right

Exactly until the counter comes round: the topic that is made then is numbered
0, and a listing that starts at 0 never shows it in its place. -/

/-- The topic a mark is about. -/
def Mark.topic : Mark → TopicId
  | .made t _ => t
  | .hidden t => t

/-- How many topics the marks make. -/
def creations (ms : List Mark) : Nat :=
  ms.countP fun
    | .made _ _ => true
    | .hidden _ => false

/-- Live topics have a number of their own, and the listing is the listed ones
under theirs. -/
structure Listed (r : Registry) : Prop where
  nonzero : ∀ t s, r.topics.lookup t = some s → s.order ≠ 0
  distinct : ∀ t t' s s', r.topics.lookup t = some s → r.topics.lookup t' = some s' →
    s.order = s'.order → t = t'
  listing : ∀ o t, r.listing.lookup o = some t ↔
    ∃ s, r.topics.lookup t = some s ∧ s.order = o ∧ s.listed = true

/-- The call neither adds to the listing nor takes from it a topic that it
leaves alive and does not register. -/
def Undisturbed (P : Primitives) (r : Registry) (op : Op) : Prop :=
  ∀ t, (∀ p ∈ op.registers, p.1 ≠ t) → t ∈ r.topics → t ∈ (step P r op).topics →
    ∀ o, (step P r op).listing.lookup o = some t ↔ r.listing.lookup o = some t

section Wrap

variable {P : Primitives} {secret : SymKey} {ops : List Op} {r : Registry}

/-- A board counts the topics that were made. -/
theorem count_foldl_mark (b : Board) (ms : List Mark) :
    (ms.foldl Board.mark b).count = b.count + creations ms := by
  induction ms generalizing b with
  | nil => rfl
  | cons m ms ih =>
      rw [List.foldl_cons, ih]
      unfold creations
      rw [List.countP_cons]
      cases m with
      | made t mode => simp only [Board.mark, if_true]; omega
      | hidden t => simp only [Board.mark, Bool.false_eq_true, if_false, Nat.add_zero]

theorem count_ofMarks (ms : List Mark) : (Board.ofMarks ms).count = creations ms :=
  (count_foldl_mark {} ms).trans (Nat.zero_add _)

theorem creations_append (ms ns : List Mark) :
    creations (ms ++ ns) = creations ms + creations ns :=
  List.countP_append

/-- Marks about other topics leave a topic's standing alone. -/
theorem standing_foldl_mark {ms : List Mark} {t : TopicId} (h : ∀ m ∈ ms, m.topic ≠ t)
    (b : Board) : (ms.foldl Board.mark b).standing t = b.standing t := by
  induction ms generalizing b with
  | nil => rfl
  | cons m ms ih =>
      have hne := h m List.mem_cons_self
      rw [List.foldl_cons, ih fun m' hm' => h m' (List.mem_cons_of_mem _ hm')]
      cases m with
      | made t' mode => exact Function.update_of_ne (Ne.symm hne) _ _
      | hidden t' => exact Function.update_of_ne (Ne.symm hne) _ _

/-- A call leaves marks about the topic it registers only. -/
theorem registers_of_mem_marks {op : Op} {m : Mark} (hm : m ∈ marks P r op) :
    ∃ p ∈ op.registers, p.1 = m.topic := by
  have hbirth : ∀ msg : Register, m ∈ r.births msg → msg.id = m.topic := by
    intro msg hmem
    unfold births at hmem
    split at hmem
    · cases hmem
    · rw [List.mem_singleton.mp hmem]
      rfl
  have hhide : ∀ msg : Register, m ∈ hidings msg → msg.id = m.topic := by
    intro msg hmem
    unfold hidings at hmem
    split at hmem
    · rw [List.mem_singleton.mp hmem]
      rfl
    · cases hmem
  cases op with
  | register msg src owner now =>
      refine ⟨(msg.id, src), rfl, ?_⟩
      simp only [marks] at hm
      split at hm
      · exact hhide msg hm
      split at hm
      · cases hm
      · rcases List.mem_append.mp hm with hm | hm
        · exact hbirth msg hm
        · exact hhide msg hm
  | _ => cases hm

/-- The registry follows the board along every run. -/
theorem shelved_reachable (cfg : RegistryConfig) (hsep : Separates P secret (ops.filterMap Op.registers)) :
    (run (step P) { cfg := cfg, secret := secret } ops).Sound P secret
        (ops.filterMap Op.registers) ∧
      (run (step P) { cfg := cfg, secret := secret } ops).Shelved
        (Board.ofMarks (history P { cfg := cfg, secret := secret } ops)) :=
  keeps_reachable (I := fun hist r => r.Shelved (Board.ofMarks hist)) hsep (Shelved.init cfg secret)
    fun _ _ _ _ _ hs h hm => h.move hs hm

/-- While the counter has not come round, the listing is the board. -/
theorem Shelved.listed {b : Board} (h : r.Shelved b) (hwf : b.Wf) (hlt : b.count < 2 ^ 32) :
    r.Listed := by
  refine ⟨?_, ?_, h.listing hlt⟩
  · intro t s hs
    exact Nat.ne_of_gt (hwf.bounds t _ (h.standing hwf hlt hs)).1
  · intro t t' s s' hs hs' heq
    exact hwf.distinct t t' _ _ (h.standing hwf hlt hs) (h.standing hwf hlt hs') heq

/-- An operation that makes no topic leaves the numbers of all others. -/
theorem Shelved.undisturbed {b : Board} (hwf : b.Wf) {op : Op}
    (hwf' : ((marks P r op).foldl Board.mark b).Wf) (h : r.Shelved b)
    (h' : (step P r op).Shelved ((marks P r op).foldl Board.mark b))
    (hlt : ((marks P r op).foldl Board.mark b).count < 2 ^ 32) : r.Undisturbed P op := by
  intro t hother hbefore hafter o
  have hlt₀ : b.count < 2 ^ 32 := Nat.lt_of_le_of_lt (Board.count_le_foldl b _) hlt
  obtain ⟨s, hs⟩ := Option.isSome_iff_exists.mp (AList.lookup_isSome.mpr hbefore)
  obtain ⟨s', hs'⟩ := Option.isSome_iff_exists.mp (AList.lookup_isSome.mpr hafter)
  have hsame : shelf s' = shelf s := by
    have hstand := h'.standing hwf' hlt hs'
    rw [standing_foldl_mark, h.standing hwf hlt₀ hs] at hstand
    · exact (Option.some.inj hstand).symm
    · intro m hm heq
      obtain ⟨p, hp, htopic⟩ := registers_of_mem_marks hm
      exact hother p hp (htopic.trans heq)
  simp only [shelf, Prod.mk.injEq] at hsame
  rw [h'.listing hlt, h.listing hlt₀]
  constructor
  · rintro ⟨s₁, hs₁, ho, hl⟩
    cases hs'.symm.trans hs₁
    exact ⟨s, hs, hsame.1.symm.trans ho, hsame.2.2.symm.trans hl⟩
  · rintro ⟨s₁, hs₁, ho, hl⟩
    cases hs.symm.trans hs₁
    exact ⟨s', hs', hsame.1.trans ho, hsame.2.2.trans hl⟩

/-- A call that makes a topic registers it, and the topic is there afterwards. -/
theorem creation {op : Op} (h : creations (marks P r op) ≠ 0) :
    ∃ msg : Register, marks P r op = .made msg.id msg.mode :: hidings msg ∧
      msg.id ∈ (step P r op).topics := by
  have hhide : ∀ msg : Register, creations (hidings msg) = 0 := by
    intro msg
    unfold hidings
    split
    · rfl
    · rfl
  cases op with
  | register msg src owner now =>
      have hview := view_registerEntry P r msg src owner now
      simp only [marks] at h ⊢
      cases hrec : r.byDev.lookup (deriveDevId P r.secret msg.id src) with
      | some e =>
          rw [hrec, Option.isSome_some, if_pos rfl] at h
          exact absurd (hhide msg) h
      | none =>
          simp only [hrec, Option.isSome_none, Bool.false_eq_true, if_false] at h hview ⊢
          split at h
          · exact absurd rfl h
          rename_i hquota
          rw [if_neg hquota]
          by_cases ht : msg.id ∈ r.topics
          · unfold births at h
            rw [if_pos ht] at h
            exact absurd (hhide msg) h
          refine ⟨msg, ?_, ?_⟩
          · unfold births
            rw [if_neg ht]
            rfl
          · -- not refused: the quota has room
            have hput : ((step P r (.register msg src owner now)).view.topic msg.id).isSome := by
              rcases hview with ⟨hcode, -⟩ | ⟨-, hview⟩
              · refine absurd hcode ?_
                unfold registerEntry
                simp only [hrec, Option.isNone_none, Bool.true_and, if_neg hquota]
                exact fun hcode => nomatch hcode
              · show ((r.registerEntry P msg src owner now).2.view.topic msg.id).isSome
                rw [hview]
                simp only [View.put, View.join, Function.update_self, Option.isSome_some]
            have hlook : ((step P r (.register msg src owner now)).topics.lookup msg.id).isSome := by
              rw [← Option.isSome_map (f := TopicState.roll)]
              exact hput
            exact AList.lookup_isSome.mp hlook
  | _ => exact absurd rfl h

/-- A call makes at most one topic. -/
theorem creations_marks_le (P : Primitives) (r : Registry) (op : Op) :
    creations (marks P r op) ≤ 1 := by
  by_cases hzero : creations (marks P r op) = 0
  · omega
  · obtain ⟨msg, hmarks, -⟩ := creation hzero
    rw [hmarks]
    unfold hidings
    split
    · exact Nat.le_refl 1
    · exact Nat.le_refl 1

/-- The topic whose making takes the counter round has the number zero. -/
theorem not_listed_of_wrap {b : Board} {op : Op}
    (h' : (step P r op).Shelved ((marks P r op).foldl Board.mark b)) (hlt : b.count < 2 ^ 32)
    (hwrap : 2 ^ 32 ≤ ((marks P r op).foldl Board.mark b).count) : ¬ (step P r op).Listed := by
  rw [count_foldl_mark] at hwrap
  obtain ⟨msg, hmarks, hlive⟩ := creation (show creations (marks P r op) ≠ 0 by omega)
  have hone := creations_marks_le P r op
  obtain ⟨s, hs⟩ := Option.isSome_iff_exists.mp (AList.lookup_isSome.mpr hlive)
  obtain ⟨o, hstand, horder⟩ := h'.topics msg.id s hs
  have hnum : ((marks P r op).foldl Board.mark b).standing msg.id =
      some (b.count + 1, msg.mode, !msg.unlisted) := by
    rw [hmarks]
    unfold hidings
    cases msg.unlisted with
    | true => simp [Board.mark]
    | false => simp [Board.mark]
  have ho : o = 2 ^ 32 := by
    have heq := congrArg (Option.map Prod.fst) (hstand.symm.trans hnum)
    have heq : o = b.count + 1 := Option.some.inj heq
    omega
  intro hlisted
  refine hlisted.nonzero msg.id s hs ?_
  rw [horder, ho, Nat.mod_self]

/-- A run that makes enough topics makes one that takes the counter round. -/
theorem exists_wrap {r₀ : Registry} (h : 2 ^ 32 ≤ creations (history P r₀ ops)) :
    ∃ pre op, pre ++ [op] <+: ops ∧ creations (history P r₀ pre) < 2 ^ 32 ∧
      2 ^ 32 ≤ creations (history P r₀ (pre ++ [op])) := by
  induction ops using List.reverseRecOn with
  | nil =>
      have hzero : creations (history P r₀ []) = 0 := rfl
      omega
  | append_singleton ops op ih =>
      rcases Nat.lt_or_ge (creations (history P r₀ ops)) (2 ^ 32) with hlt | hge
      · exact ⟨ops, op, List.prefix_rfl, hlt, h⟩
      · obtain ⟨pre, op', hpre, hlt, hwrap⟩ := ih hge
        exact ⟨pre, op', hpre.trans (List.prefix_append _ _), hlt, hwrap⟩

theorem history_singleton (P : Primitives) (r : Registry) (op : Op) :
    history P r [op] = marks P r op :=
  List.append_nil _

/-- The board of a run that makes one more call. -/
theorem ofMarks_history_concat (P : Primitives) (r : Registry) (pre : List Op) (op : Op) :
    Board.ofMarks (history P r (pre ++ [op])) =
      (marks P (run (step P) r pre) op).foldl Board.mark (Board.ofMarks (history P r pre)) := by
  rw [history_append, Board.ofMarks_append, history_singleton]

end Wrap

/-- The listing is right in every state of a run, and no call disturbs another
topic's place in it, exactly if the run makes fewer than 2^32 topics.  Assumed
is that device ids tell apart the pairs of topic and address the run registers. -/
theorem listing_right_iff (P : Primitives) (cfg : RegistryConfig) (secret : SymKey)
    (ops : List Op) (hsep : Separates P secret (ops.filterMap Op.registers)) :
    ((∀ pre, pre <+: ops → (run (step P) { cfg := cfg, secret := secret } pre).Listed) ∧
      (∀ pre op, pre ++ [op] <+: ops →
        (run (step P) { cfg := cfg, secret := secret } pre).Undisturbed P op)) ↔
      creations (history P { cfg := cfg, secret := secret } ops) < 2 ^ 32 := by
  have hsub : ∀ pre, pre <+: ops → Separates P secret (pre.filterMap Op.registers) :=
    fun pre hpre => hsep.mono (hpre.filterMap _).subset
  have hshelved : ∀ pre, pre <+: ops → _ :=
    fun pre hpre => (shelved_reachable cfg (hsub pre hpre)).2
  constructor
  · rintro ⟨hlisted, -⟩
    by_contra hmany
    obtain ⟨pre, op, hpre, hlt, hwrap⟩ := exists_wrap (Nat.not_lt.mp hmany)
    have hafter := hshelved (pre ++ [op]) hpre
    rw [← count_ofMarks] at hlt hwrap
    rw [ofMarks_history_concat] at hafter hwrap
    rw [run_append] at hafter
    refine not_listed_of_wrap hafter hlt hwrap ?_
    have hgood := hlisted (pre ++ [op]) hpre
    rwa [run_append] at hgood
  · intro hfew
    have hcount : ∀ pre, pre <+: ops →
        (Board.ofMarks (history P { cfg := cfg, secret := secret } pre)).count < 2 ^ 32 := by
      rintro pre ⟨rest, rfl⟩
      rw [count_ofMarks]
      rw [history_append, creations_append] at hfew
      omega
    refine ⟨fun pre hpre => ?_, fun pre op hpre => ?_⟩
    · exact (hshelved pre hpre).listed (Board.wf_ofMarks _) (hcount pre hpre)
    · have hafter := hshelved (pre ++ [op]) hpre
      have hlt := hcount (pre ++ [op]) hpre
      have hwf := Board.wf_ofMarks (history P { cfg := cfg, secret := secret } (pre ++ [op]))
      rw [ofMarks_history_concat] at hafter hlt hwf
      rw [run_append] at hafter
      have hbefore := hshelved pre ((List.prefix_append pre [op]).trans hpre)
      exact hbefore.undisturbed (Board.wf_ofMarks _) hwf hafter hlt

theorem listing_right_iff_sample :
    Separates Primitives.checksum (Vector.replicate 32 0) (sampleOps.filterMap Op.registers) ∧
    (run (step Primitives.checksum) { secret := Vector.replicate 32 0 } sampleOps).Listed := by
  have hsep : Separates Primitives.checksum (Vector.replicate 32 0)
      (sampleOps.filterMap Op.registers) := by
    unfold Separates
    decide +kernel
  have hfew : creations (history Primitives.checksum { secret := Vector.replicate 32 0 } sampleOps) <
      2 ^ 32 := by
    decide +kernel
  refine ⟨hsep, ?_⟩
  exact ((listing_right_iff Primitives.checksum {} (Vector.replicate 32 0) sampleOps hsep).mpr
    hfew).1 sampleOps List.prefix_rfl

/-! ## A server that runs for long enough

One topic made and dropped over and over brings any server there. -/

/-- A device registers for a topic. -/
def arrival : Op := .register { id := Vector.replicate 16 1 } { port := 7 } 1 0

/-- It leaves again, and the topic with it. -/
def departure : Op :=
  .unregister (deriveDevId Primitives.checksum (Vector.replicate 32 0) (Vector.replicate 16 1)
    { port := 7 }) 1

/-- The device comes and goes `n` times. -/
def churn : Nat → List Op
  | 0 => []
  | n + 1 => churn n ++ [arrival, departure]

theorem registers_churn (n : Nat) : ∀ p ∈ (churn n).filterMap Op.registers,
    p = (Vector.replicate 16 1, { port := 7 }) := by
  induction n with
  | zero =>
      intro p hp
      cases hp
  | succ n ih =>
      intro p hp
      rw [churn, List.filterMap_append, List.mem_append] at hp
      rcases hp with hp | hp
      · exact ih p hp
      · simpa [arrival, departure, Op.registers] using hp

/-- A registry without records has no topics and nothing counted. -/
theorem overQuota_of_empty {P : Primitives} {key : SymKey} {known : List (TopicId × Endpoint)}
    {r : Registry} (hsound : r.Sound P key known) (hquota : r.RecordQuotas {})
    (hempty : ∀ dev, r.byDev.lookup dev = none) (t : TopicId) (ik : IpKey) :
    t ∉ r.topics ∧ r.overQuota t ik = false := by
  have hnone : ∀ t, r.topics.lookup t = none := by
    intro t
    cases hs : r.topics.lookup t with
    | none => rfl
    | some s =>
        have hview : r.view.topic t = some s.roll := by simp only [view, hs, Option.map_some]
        obtain ⟨dev, hdev⟩ := List.exists_mem_of_ne_nil _ (hsound.topics.nonempty t _ hview)
        have hrec := (hsound.topics.members t _ hview dev).mp hdev
        simp only [view, hempty, Option.map_none] at hrec
        cases hrec
  have hlen : r.byDev.entries.length ≤ 0 := by
    rw [length_byDev]
    refine Nat.le_of_eq (tally_eq_zero fun dev e he => ?_)
    rw [hempty dev] at he
    cases he
  have htopics : r.topics.entries.length ≤ 0 := by
    refine length_le_of_lookup (m := (∅ : AList fun _ : TopicId => TopicState)) fun t ht => ?_
    rw [hnone t] at ht
    cases ht
  have hcount : r.recordsOf ik = 0 := by
    unfold recordsOf counted
    refine tally_eq_zero fun dev e he => ?_
    rw [hempty dev] at he
    cases he
  refine ⟨AList.lookup_eq_none.mp (hnone t), ?_⟩
  unfold overQuota
  rw [hquota.total ik, if_pos hcount, hnone t, hquota.config]
  simp only [Option.any_none, Bool.or_false, Bool.or_eq_false_iff, decide_eq_false_iff_not]
  constructor
  · show ¬ 1000000 ≤ _
    omega
  · show ¬ 100000 ≤ _
    omega

/-- What stays of a registry that everyone has left. -/
structure Deserted (r : Registry) : Prop where
  sound : r.Sound Primitives.checksum (Vector.replicate 32 0) [(Vector.replicate 16 1, { port := 7 })]
  quotas : r.RecordQuotas {}
  empty : ∀ dev, r.byDev.lookup dev = none

theorem separates_singleton (P : Primitives) (secret : SymKey) (p : TopicId × Endpoint) :
    Separates P secret [p] := by
  intro q hq q' hq' _
  rw [List.mem_singleton.mp hq, List.mem_singleton.mp hq']

/-- The device comes to a deserted registry and makes the topic. -/
theorem Deserted.marks_arrival {r : Registry} (h : r.Deserted) :
    marks Primitives.checksum r arrival = [.made (Vector.replicate 16 1) .open] := by
  obtain ⟨hnew, hquota⟩ := overQuota_of_empty h.sound h.quotas h.empty (Vector.replicate 16 1)
    (ipKey { port := 7 })
  simp only [marks, arrival, h.empty, Option.isSome_none, Bool.false_eq_true, if_false, hquota,
    births, if_neg hnew, hidings, List.append_nil]

theorem positive_default : RegistryConfig.Positive {} := by
  constructor <;> decide

/-- The record the arrival leaves is the only one. -/
theorem Deserted.record_arrival {r : Registry} (h : r.Deserted) (dev : DevId) :
    ((step Primitives.checksum r arrival).byDev.lookup dev).map Entry.stub =
      let dev₀ := deriveDevId Primitives.checksum (Vector.replicate 32 0) (Vector.replicate 16 1)
        { port := 7 }
      if dev = dev₀ then some ⟨dev₀, Vector.replicate 16 1, { port := 7 }, 1⟩ else none := by
  have hview := view_registerEntry Primitives.checksum r { id := Vector.replicate 16 1 }
    { port := 7 } 1 0
  have hquota := (overQuota_of_empty h.sound h.quotas h.empty (Vector.replicate 16 1)
    (ipKey { port := 7 })).2
  simp only [h.empty] at hview
  rcases hview with ⟨hcode, -⟩ | ⟨-, hview⟩
  · refine absurd hcode ?_
    unfold registerEntry
    simp only [h.empty, Option.isNone_none, Bool.true_and, hquota, Bool.false_eq_true, if_false]
    exact fun hcode => nomatch hcode
  · have hrec := congrFun (congrArg View.record hview) dev
    rw [h.sound.secret] at hrec
    simp only [View.put, View.join, Function.update_apply] at hrec
    refine hrec.trans ?_
    dsimp only
    split
    · rfl
    · simp only [view, h.empty, Option.map_none]

/-- The device comes and goes, and the registry is deserted again. -/
theorem Deserted.round {r : Registry} (h : r.Deserted) :
    (run (step Primitives.checksum) r [arrival, departure]).Deserted := by
  have hknown : ∀ op ∈ [arrival, departure], ∀ p ∈ op.registers,
      p ∈ [((Vector.replicate 16 1 : TopicId), ({ port := 7 } : Endpoint))] := by
    intro op hop p hp
    simp only [List.mem_cons, List.not_mem_nil, or_false] at hop
    rcases hop with rfl | rfl
    · cases hp
      exact List.mem_cons_self
    · cases hp
  obtain ⟨hsound, hquotas⟩ := keeps_run (I := fun _ r => r.RecordQuotas {})
    (fun _ _ _ _ _ hs hq hm => hq.move positive_default hs hm) (separates_singleton _ _ _)
    hknown [] h.sound h.quotas
  refine ⟨hsound, hquotas, fun dev => ?_⟩
  have hrec := h.record_arrival
  rw [run_cons, run_cons, run_nil]
  generalize step Primitives.checksum r arrival = r₁ at hrec
  show (r₁.unregister _ 1).2.byDev.lookup dev = none
  obtain ⟨e, he, hstub⟩ := Option.map_eq_some_iff.mp ((hrec _).trans (if_pos rfl))
  have howner : e.owner = 1 := congrArg Stub.owner hstub
  unfold unregister
  rw [he]
  dsimp only
  rw [if_neg (not_not.mpr howner), lookup_eraseEntry]
  split
  · rfl
  · rename_i hne
    have hnone := (hrec dev).trans (if_neg hne)
    exact Option.map_eq_none_iff.mp hnone

/-- After `n` rounds the registry is deserted and has made `n` topics. -/
theorem churn_deserts (n : Nat) :
    (run (step Primitives.checksum) { secret := Vector.replicate 32 0 } (churn n)).Deserted ∧
      creations (history Primitives.checksum { secret := Vector.replicate 32 0 } (churn n)) = n := by
  induction n with
  | zero => exact ⟨⟨Sound.init _ _ _ _, .init _ _, fun _ => rfl⟩, rfl⟩
  | succ n ih =>
      obtain ⟨hdesert, hcount⟩ := ih
      rw [churn, run_append, history_append, creations_append, hcount]
      refine ⟨hdesert.round, ?_⟩
      have hround : history Primitives.checksum
          (run (step Primitives.checksum) { secret := Vector.replicate 32 0 } (churn n))
          [arrival, departure] = [.made (Vector.replicate 16 1) .open] := by
        unfold history
        rw [trace, hdesert.marks_arrival]
        rfl
      rw [hround]
      rfl

/-- One more arrival takes the counter round. -/
theorem churn_wraps {n : Nat} (hn : n + 1 = 2 ^ 32) :
    Separates Primitives.checksum (Vector.replicate 32 0)
        ((churn n ++ [arrival]).filterMap Op.registers) ∧
      ¬ (run (step Primitives.checksum) { secret := Vector.replicate 32 0 }
        (churn n ++ [arrival])).Listed := by
  have hpairs : ∀ p ∈ (churn n ++ [arrival]).filterMap Op.registers,
      p ∈ [((Vector.replicate 16 1 : TopicId), ({ port := 7 } : Endpoint))] := by
    intro p hp
    rw [List.filterMap_append, List.mem_append] at hp
    rcases hp with hp | hp
    · rw [registers_churn _ p hp]
      exact List.mem_cons_self
    · exact hp
  have hsep := (separates_singleton Primitives.checksum (Vector.replicate 32 0) _).mono hpairs
  obtain ⟨hdesert, hcount⟩ := churn_deserts n
  have hafter := (shelved_reachable {} hsep).2
  rw [ofMarks_history_concat, run_append] at hafter
  refine ⟨hsep, ?_⟩
  rw [run_append]
  refine not_listed_of_wrap hafter ?_ ?_
  · rw [count_ofMarks, hcount]
    omega
  · rw [count_foldl_mark, count_ofMarks, hcount, hdesert.marks_arrival]
    exact Nat.le_of_eq hn.symm

/-- A device that has come and gone 2^32 - 1 times and comes again gives its
topic the number zero. -/
theorem listing_wraps :
    Separates Primitives.checksum (Vector.replicate 32 0)
        ((churn (2 ^ 32 - 1) ++ [arrival]).filterMap Op.registers) ∧
      ¬ (run (step Primitives.checksum) { secret := Vector.replicate 32 0 }
        (churn (2 ^ 32 - 1) ++ [arrival])).Listed :=
  churn_wraps (Nat.sub_add_cancel (Nat.two_pow_pos 32))

end Registry

end UConnect.Server
