/-
  Node/Leaving.lean --- the table of attempts over runs, and how often a nonce
  is accepted.

  Source: src/api/node.cpp, `Node::leave`, `Topic::disconnect_all` and
  `disconnect_peer`; README.md and src/session/tcp_session.hpp, which say that a
  nonce is accepted once.

  A topic that is being left is no longer in the map, but its peers' nonces stay
  in the table until the peers are disconnected, which erases them.  The topic
  may be joined again before that, so the table can lead to a peer that has just
  been found again.

  A nonce comes from the peer, and nothing keeps two peers from giving the same
  one, nor one peer from giving one again, be it the one it was on when its
  topic was left.  Where nothing of this happens the table and the peers agree
  (`attempts_index_peers`), and no two sessions of a peer come up under one
  nonce (`nonce_accepted_once`).
-/
import UConnect.Node.Roster

set_option autoImplicit false

namespace UConnect.Node

open UConnect.Foundation UConnect.Crypto UConnect.Wire

namespace Roster

/-! ## What a step does about attempts

The conditions on a step, as predicates of its effects. -/

/-- A peer of the table is on the attempt. -/
def Holds (ps : AList fun _ : PeerKey => Peer) (k : PeerKey) (n : AttemptNonce) : Prop :=
  (ps.lookup k).bind Peer.attempt = some n

/-- Every effect of the step on the tables meets `C`, read where it takes place;
`C` is given the state before the step.  What `leave` does has no effect but to
erase nonces. -/
def AllEffects (P : Primitives) (C : Roster → PeerKey → Book → Effect → Prop) (r : Roster)
    (o : PeerLimits × RosterOp) : Prop :=
  match o.2 with
  | .book op => r.book.AllEffects P (C r) (r.book.withRoom o.1 op)
  | .leave _ => True
  | .disconnectAll _ _ _ _ => True

instance AllEffects.decidable (P : Primitives) {C : Roster → PeerKey → Book → Effect → Prop}
    [∀ r k b f, Decidable (C r k b f)] (r : Roster) :
    (o : PeerLimits × RosterOp) → Decidable (r.AllEffects P C o)
  | (l, .book op) =>
      inferInstanceAs (Decidable (r.book.AllEffects P (C r) (r.book.withRoom l op)))
  | (_, .leave _) => inferInstanceAs (Decidable True)
  | (_, .disconnectAll _ _ _ _) => inferInstanceAs (Decidable True)

/-- `adopt_attempt` is called with unclaimed nonces only. -/
def Unclaimed (r : Roster) : PeerKey → Book → Effect → Prop := Book.Unclaimed r.LeftUnder

instance Unclaimed.decidable (r : Roster) (k : PeerKey) (b : Book) (f : Effect) :
    Decidable (r.Unclaimed k b f) :=
  inferInstanceAs (Decidable (Book.Unclaimed r.LeftUnder k b f))

/-- `adopt_attempt` is called with untried nonces only. -/
def Untried (r : Roster) : PeerKey → Book → Effect → Prop := Book.Untried r.LeftUnder

instance Untried.decidable (r : Roster) (k : PeerKey) (b : Book) (f : Effect) :
    Decidable (r.Untried k b f) :=
  inferInstanceAs (Decidable (Book.Untried r.LeftUnder k b f))

/-- The step is about the peer and its nonce: it works on the peer, or it
disconnects it, as one of a left topic, from that attempt. -/
def Concerns (P : Primitives) (r : Roster) (o : PeerLimits × RosterOp) (k : PeerKey)
    (n : AttemptNonce) : Prop :=
  match o.2 with
  | .book op => r.book.worksOn P (r.book.withRoom o.1 op) = some k
  | .leave _ => False
  | .disconnectAll i _ _ _ => ∃ ps, r.leaving[i]? = some ps ∧ Holds ps k n

/-! ## Leaving and disconnecting

The two halves of `leave`, and what lies between them. -/

section Leaves

variable (P : Primitives) (l : PeerLimits) {r : Roster} {k : PeerKey} {n : AttemptNonce}

theorem started_withRoom (op : BookOp) :
    r.book.started (r.book.withRoom l op) = r.book.started op := by
  cases op <;> rfl

/-- The first lock section of `leave`, on a topic that is in the map. -/
theorem leave_eq {t : TopicId} (hjoined : ¬ (r.book.topics.lookup t).isNone = true) :
    r.step P l (.leave t) =
      { r with
        book := { r.book with
          topics := r.book.topics.erase t
          peers := part r.book.peers fun k => decide (k.1 ≠ t) }
        leaving := r.leaving ++ [part r.book.peers fun k => decide (k.1 = t)] } :=
  if_neg hjoined

/-- The peers of a topic that is left are taken out of the map, with their
attempts. -/
theorem attemptOf_leave {t : TopicId} (hjoined : ¬ (r.book.topics.lookup t).isNone = true) :
    (r.step P l (.leave t)).book.attemptOf =
      fun k => if k.1 = t then none else r.book.attemptOf k := by
  rw [leave_eq P l hjoined]
  funext k
  unfold Book.attemptOf
  simp only [lookup_part]
  rcases Decidable.em (k.1 = t) with hk | hk <;> simp [hk]

/-- The attempts of the peers of a topic that is left are the left topic's. -/
theorem leftUnder_leave {t : TopicId} (hjoined : ¬ (r.book.topics.lookup t).isNone = true) :
    (r.step P l (.leave t)).LeftUnder k n ↔
      r.LeftUnder k n ∨ (k.1 = t ∧ r.book.attemptOf k = some n) := by
  have hpart : Holds (part r.book.peers fun k => decide (k.1 = t)) k n ↔
      k.1 = t ∧ r.book.attemptOf k = some n := by
    unfold Holds Book.attemptOf
    rw [lookup_part]
    rcases Decidable.em (k.1 = t) with hk | hk <;> simp [hk]
  rw [← hpart, leave_eq P l hjoined]
  unfold LeftUnder
  simp only [List.mem_append, List.mem_singleton]
  refine ⟨?_, ?_⟩
  · rintro ⟨ps, hps | rfl, hheld⟩
    · exact Or.inl ⟨ps, hps, hheld⟩
    · exact Or.inr hheld
  · rintro (⟨ps, hps, hheld⟩ | hheld)
    · exact ⟨ps, Or.inl hps, hheld⟩
    · exact ⟨_, Or.inr rfl, hheld⟩

/-- Dismissing a peer ends its attempt. -/
theorem dismiss_eq (x : Ctx) (reason : UInt16) (sends : PeerKey → List SendResult) (b : Book)
    (kp : Σ _ : PeerKey, Peer) : dismiss P x reason sends b kp =
      match kp.2.attempt with
      | none => b
      | some n => { b with attempts := b.attempts.erase n } := by
  unfold dismiss
  rw [disconnectPeer_effects]
  cases kp.2.attempt <;> rfl

/-- Dismissing peers takes their nonces out of the table, and leaves the rest as
it is. -/
theorem foldl_dismiss (x : Ctx) (reason : UInt16) (sends : PeerKey → List SendResult) (b : Book)
    (kps : List (Σ _ : PeerKey, Peer)) :
    ∃ as, kps.foldl (dismiss P x reason sends) b = { b with attempts := as } ∧
      ∀ n k, as.lookup n = some k ↔ b.attempts.lookup n = some k ∧
        ∀ kp ∈ kps, kp.2.attempt ≠ some n := by
  induction kps generalizing b with
  | nil =>
      refine ⟨b.attempts, rfl, fun n k => ⟨fun hn => ⟨hn, ?_⟩, And.left⟩⟩
      exact fun kp hkp => absurd hkp List.not_mem_nil
  | cons kp kps ih =>
      rw [List.foldl_cons, dismiss_eq]
      cases ha : kp.2.attempt with
      | none =>
          obtain ⟨as, heq, has⟩ := ih b
          refine ⟨as, heq, fun n k => ?_⟩
          rw [has, List.forall_mem_cons, ha]
          exact and_congr_right fun _ =>
            ⟨fun hrest => ⟨(Option.some_ne_none n).symm, hrest⟩, And.right⟩
      | some m =>
          obtain ⟨as, heq, has⟩ := ih { b with attempts := b.attempts.erase m }
          refine ⟨as, heq, fun n k => ?_⟩
          rw [has, List.forall_mem_cons, ha]
          change (b.attempts.erase m).lookup n = some k ∧ _ ↔ _
          rcases Decidable.em (n = m) with hn | hn
          · rw [hn, AList.lookup_erase]
            exact iff_of_false (fun h => nomatch h.1) fun h => h.2.1 rfl
          · rw [AList.lookup_erase_ne hn]
            refine and_congr_right fun _ => ⟨fun hrest => ⟨?_, hrest⟩, And.right⟩
            exact fun hmn => hn (Option.some.inj hmn).symm

/-- The end of a `leave`: the nonces of the left topic's peers go, and nothing
else does. -/
theorem disconnectAll_eq {i : Nat} {ps : AList fun _ : PeerKey => Peer}
    (hps : r.leaving[i]? = some ps) (x : Ctx) (reason : UInt16)
    (sends : PeerKey → List SendResult) :
    ∃ as, r.step P l (.disconnectAll i x reason sends) =
        { r with book := { r.book with attempts := as }, leaving := r.leaving.eraseIdx i } ∧
      ∀ n k, as.lookup n = some k ↔
        r.book.attempts.lookup n = some k ∧ ∀ k', ¬ Holds ps k' n := by
  obtain ⟨as, heq, has⟩ := foldl_dismiss P x reason sends r.book ps.entries
  refine ⟨as, ?_, fun n k => ?_⟩
  · unfold step
    simp only [hps, heq]
  · rw [has]
    refine and_congr_right fun _ => ⟨?_, ?_⟩
    · intro hnone k' hheld
      obtain ⟨p, hp, hpn⟩ := Option.bind_eq_some_iff.mp hheld
      exact hnone ⟨k', p⟩ (AList.mem_lookup_iff.mp hp) hpn
    · intro hnone kp hkp hpn
      apply hnone kp.1
      rw [Holds, AList.mem_lookup_iff.mpr hkp]
      exact hpn

end Leaves

/-! ## The index

The table, the peers of the map and the peers of the topics that are being left. -/

/-- The table and the peers agree, those of topics being left included, and no
two of these topics have a peer on one attempt. -/
structure Indexed (Q : Option AttemptNonce → AttemptNonce → Prop) (r : Roster) : Prop where
  consistent : r.book.Consistent r.LeftUnder Q
  disjoint : r.leaving.Pairwise fun ps qs => ∀ k n, Holds ps k n → ¬ Holds qs k n

section Index

variable (P : Primitives) (l : PeerLimits) {Q : Option AttemptNonce → AttemptNonce → Prop}
  {r : Roster}

theorem not_leftUnder_fresh (cfg : NodeConfig) (k : PeerKey) (n : AttemptNonce) :
    ¬ (fresh cfg).LeftUnder k n := by
  rintro ⟨ps, hps, -⟩
  cases hps

theorem indexed_fresh (Q : Option AttemptNonce → AttemptNonce → Prop) (cfg : NodeConfig) :
    Indexed Q (fresh cfg) where
  consistent := Book.consistent_fresh (not_leftUnder_fresh cfg) Q cfg
  disjoint := .nil

theorem Indexed.leave (h : Indexed Q r) (t : TopicId) : Indexed Q (r.step P l (.leave t)) := by
  rcases Decidable.em ((r.book.topics.lookup t).isNone = true) with hnone | hjoined
  · have heq : r.step P l (.leave t) = r := if_pos hnone
    rw [heq]
    exact h
  · refine ⟨⟨?_, ?_⟩, ?_⟩
    · have hattempts : (r.step P l (.leave t)).book.attempts = r.book.attempts := by
        rw [leave_eq P l hjoined]
      rw [attemptOf_leave P l hjoined, hattempts]
      exact (h.consistent.index.setAside fun k => k.1 = t).congr_aside
        fun k n => leftUnder_leave P l hjoined
    · intro k p hp
      refine h.consistent.resting k p ?_
      rw [leave_eq P l hjoined] at hp
      simp only [lookup_part] at hp
      split at hp
      · exact hp
      · cases hp
    · rw [leave_eq P l hjoined]
      refine List.pairwise_append.mpr ⟨h.disjoint, List.pairwise_singleton _ _, ?_⟩
      intro ps hps qs hqs k n hheld hnew
      cases List.mem_singleton.mp hqs
      -- a peer that is still in the map is on no attempt of a topic left before
      refine h.consistent.index.apart n k ?_ ⟨ps, hps, hheld⟩
      unfold Holds at hnew
      rw [lookup_part] at hnew
      split at hnew
      · exact hnew
      · cases hnew

/-- Of the attempts left, those of the peers just disconnected are gone. -/
theorem leftUnder_eraseIdx (h : Indexed Q r) {i : Nat} {ps : AList fun _ : PeerKey => Peer}
    (hps : r.leaving[i]? = some ps) (k : PeerKey) (n : AttemptNonce) :
    (∃ qs ∈ r.leaving.eraseIdx i, Holds qs k n) ↔ r.LeftUnder k n ∧ ¬ Holds ps k n := by
  refine ⟨?_, ?_⟩
  · rintro ⟨qs, hqs, hheld⟩
    obtain ⟨j, hji, hj⟩ := List.mem_eraseIdx_iff_getElem?.mp hqs
    refine ⟨⟨qs, List.mem_of_getElem? hj, hheld⟩, fun hgone => ?_⟩
    obtain ⟨hilt, rfl⟩ := List.getElem?_eq_some_iff.mp hps
    obtain ⟨hjlt, rfl⟩ := List.getElem?_eq_some_iff.mp hj
    rcases Nat.lt_or_gt_of_ne hji with hlt | hgt
    · exact List.pairwise_iff_getElem.mp h.disjoint j i hjlt hilt hlt k n hheld hgone
    · exact List.pairwise_iff_getElem.mp h.disjoint i j hilt hjlt hgt k n hgone hheld
  · rintro ⟨⟨qs, hqs, hheld⟩, hkept⟩
    obtain ⟨j, hj⟩ := List.mem_iff_getElem?.mp hqs
    refine ⟨qs, List.mem_eraseIdx_iff_getElem?.mpr ⟨j, ?_, hj⟩, hheld⟩
    rintro rfl
    rw [hps] at hj
    cases hj
    exact hkept hheld

theorem Indexed.disconnectAll (h : Indexed Q r) (i : Nat) (x : Ctx) (reason : UInt16)
    (sends : PeerKey → List SendResult) :
    Indexed Q (r.step P l (.disconnectAll i x reason sends)) := by
  cases hps : r.leaving[i]? with
  | none =>
      have heq : r.step P l (.disconnectAll i x reason sends) = r := by
        unfold step
        simp only [hps]
      rw [heq]
      exact h
  | some ps =>
      obtain ⟨as, heq, has⟩ := disconnectAll_eq P l hps x reason sends
      rw [heq]
      refine ⟨⟨?_, h.consistent.resting⟩, h.disjoint.sublist (List.eraseIdx_sublist _ _)⟩
      have hgone : ∀ k n, Holds ps k n → r.LeftUnder k n := fun k n hheld =>
        ⟨ps, List.mem_of_getElem? hps, hheld⟩
      exact (h.consistent.index.forget hgone has).congr_aside (leftUnder_eraseIdx h hps)

/-- A step keeps the index, if it takes up no nonce that is claimed. -/
theorem Indexed.step (h : Indexed Q r) {o : PeerLimits × RosterOp}
    (hstart : ∀ op, o.2 = .book op → r.book.StartsUnder Q (r.book.withRoom o.1 op))
    (hfree : r.AllEffects P Unclaimed o) : Indexed Q (r.stepUnder P o) := by
  obtain ⟨l, op⟩ := o
  cases op with
  | book op => exact ⟨h.consistent.step P (hstart op rfl) hfree, h.disjoint⟩
  | leave t => exact h.leave P l t
  | disconnectAll i x reason sends => exact h.disconnectAll P l i x reason sends

/-- A step leaves alone where the nonces of peers lead that it is not about. -/
theorem Indexed.lookup_step (h : Indexed Q r) {o : PeerLimits × RosterOp}
    (hstart : ∀ op, o.2 = .book op → r.book.StartsUnder Q (r.book.withRoom o.1 op))
    (hfree : r.AllEffects P Unclaimed o) {k : PeerKey} {n : AttemptNonce}
    (hother : ¬ r.Concerns P o k n) :
    r.book.attempts.lookup n = some k ↔ (r.stepUnder P o).book.attempts.lookup n = some k := by
  have hafter := (h.step P hstart hfree).consistent.index
  obtain ⟨l, op⟩ := o
  cases op with
  | book op =>
      have hsame : (r.stepUnder P (l, .book op)).book.attemptOf k = r.book.attemptOf k :=
        Book.attemptOf_step_ne P hother
      rw [h.consistent.index.finds, hafter.finds, hsame]
      rfl
  | leave t =>
      unfold stepUnder Roster.step
      simp only
      split <;> rfl
  | disconnectAll i x reason sends =>
      unfold stepUnder
      cases hps : r.leaving[i]? with
      | none =>
          unfold Roster.step
          simp only [hps]
      | some ps =>
          obtain ⟨as, heq, has⟩ := disconnectAll_eq P l hps x reason sends
          simp only [heq, has, iff_self_and]
          intro hk k' hheld
          -- the nonce leads to one peer only, so the peer disconnected would be this one
          have hk' := h.consistent.index.find_aside (i := k')
            ⟨ps, List.mem_of_getElem? hps, hheld⟩
          have hkk : k = k' := Option.some.inj (hk.symm.trans hk')
          subst hkk
          exact hother ⟨ps, hps, hheld⟩

end Index

/-! ## The ledger

Every nonce a session has come up under, and that it is not tried again. -/

section Ledgers

variable (P : Primitives) {r : Roster}

theorem ledger_leave (h : Book.Ledger r.book) (l : PeerLimits) (t : TopicId) :
    Book.Ledger (r.step P l (.leave t)).book := by
  unfold step
  simp only
  split
  · exact h
  · exact ⟨h.placed, h.spent, h.once⟩

/-- Disconnecting the peers of a left topic puts no nonce into the table. -/
theorem ledger_disconnectAll (h : Book.Ledger r.book) (l : PeerLimits) (i : Nat) (x : Ctx)
    (reason : UInt16) (sends : PeerKey → List SendResult) :
    Book.Ledger (r.step P l (.disconnectAll i x reason sends)).book := by
  cases hps : r.leaving[i]? with
  | none =>
      unfold step
      simp only [hps]
      exact h
  | some ps =>
      obtain ⟨as, heq, has⟩ := disconnectAll_eq P l hps x reason sends
      rw [heq]
      refine ⟨?_, ?_, h.once⟩
      · intro pc hpc hknown hlive k hk
        exact h.placed pc hpc hknown hlive k ((has _ _).mp hk).1
      · intro k n hkn hlookup
        exact h.spent k n hkn ((has _ _).mp hlookup).1

/-- The ledger and the index, through one step that takes up only nonces that
are untried and starts no session under an attempt of a topic being left. -/
theorem ledger_step (h : Book.Ledger r.book) (hindex : Indexed Book.OwnAttempt r)
    {o : PeerLimits × RosterOp} (hclear : r.StartsClear o.2) (hfree : r.AllEffects P Untried o) :
    Book.Ledger (r.stepUnder P o).book ∧ Indexed Book.OwnAttempt (r.stepUnder P o) := by
  obtain ⟨l, op⟩ := o
  cases op with
  | book op =>
      have hclear' : ∀ s ∈ r.book.started (r.book.withRoom l op), ¬ r.LeftUnder s.1 s.2 := by
        rw [started_withRoom]
        exact hclear
      obtain ⟨hledger, hcons⟩ := h.step P hindex.consistent hclear' hfree
      exact ⟨hledger, hcons, hindex.disjoint⟩
  | leave t => exact ⟨ledger_leave P h l t, hindex.leave P l t⟩
  | disconnectAll i x reason sends =>
      exact ⟨ledger_disconnectAll P h l i x reason sends,
        hindex.disconnectAll P l i x reason sends⟩

end Ledgers

end Roster

/-! ## Runs

Any operations in any order, each meeting its condition. -/

/-- In every run in which `adopt_attempt` is never called with a nonce under
which the table holds another peer, nor with one that the peer was on when its
topic was left, the table finds the peer of every attempt, of the topics being
left too, and nothing else; and what is done about one peer never changes where
the nonce of another one leads. -/
theorem attempts_index_peers (P : Primitives) (cfg : NodeConfig)
    (ops : List (PeerLimits × RosterOp))
    (hfree : AllSteps (Roster.AllEffects P Roster.Unclaimed) (Roster.stepUnder P)
      (Roster.fresh cfg) ops) :
    (∀ n k, (run (Roster.stepUnder P) (Roster.fresh cfg) ops).book.attempts.lookup n = some k ↔
      (∃ p, (run (Roster.stepUnder P) (Roster.fresh cfg) ops).book.peers.lookup k = some p ∧
        p.attempt = some n) ∨
      (run (Roster.stepUnder P) (Roster.fresh cfg) ops).LeftUnder k n) ∧
    ∀ o, (run (Roster.stepUnder P) (Roster.fresh cfg) ops).AllEffects P Roster.Unclaimed o →
      ∀ n k, ¬ (run (Roster.stepUnder P) (Roster.fresh cfg) ops).Concerns P o k n →
        ((run (Roster.stepUnder P) (Roster.fresh cfg) ops).book.attempts.lookup n = some k ↔
          ((run (Roster.stepUnder P) (Roster.fresh cfg) ops).stepUnder P o).book.attempts.lookup n =
            some k) := by
  have hstart : ∀ (b : Book) (op : BookOp), b.StartsUnder (fun _ _ => True) op := by
    intro b op
    cases op with
    | drivePending => exact fun _ _ _ _ _ => trivial
    | _ => trivial
  have hindexed : Roster.Indexed (fun _ _ => True)
      (run (Roster.stepUnder P) (Roster.fresh cfg) ops) :=
    run_invariant_of_allSteps (fun r o hok h => h.step P (fun op _ => hstart _ _) hok)
      (Roster.indexed_fresh _ cfg) ops hfree
  generalize run (Roster.stepUnder P) (Roster.fresh cfg) ops = r at hindexed ⊢
  refine ⟨fun n k => ?_, fun o hok n k hother => ?_⟩
  · rw [hindexed.consistent.index.finds n k, Book.attemptOf, Option.bind_eq_some_iff]
  · exact hindexed.lookup_step P (fun op _ => hstart _ _) hok hother

namespace Book

/-- The topic of the samples. -/
def sampleTopic : TopicId := Vector.replicate 16 1
/-- Our own device. -/
def sampleSelf : DevId := Vector.replicate 16 9
/-- A peer's place, by its device. -/
def sampleKey (d : UInt8) : PeerKey := (sampleTopic, Vector.replicate 16 d)
/-- What is there at a time. -/
def sampleCtx (now : Instant) : Ctx where
  now := now
  nonce := Vector.replicate 16 0

end Book

namespace Roster

/-- More peers than any of the samples has. -/
def sampleLimits : PeerLimits where
  maxPeers _ := 8
  maxTotalPeers := 64

/-- Operations under the limits of the samples. -/
def sampleRun (ops : List RosterOp) : List (PeerLimits × RosterOp) :=
  ops.map fun op => (sampleLimits, op)

/-- A topic is joined and published. -/
def samplePublish : List RosterOp :=
  [.book (.join Book.sampleTopic none),
    .book (.setSelf Book.sampleTopic (some Book.sampleSelf)), .book (.control true)]

/-- A peer introduces itself. -/
def sampleIntroduction (d n : UInt8) (now : Instant) : RosterOp :=
  .book (.act (Book.sampleKey d) (Book.sampleCtx now) (.relayed (Vector.replicate 16 n) [] {}))

/-- Two peers introduce themselves. -/
def sampleIntroductions (n m : UInt8) : List (PeerLimits × RosterOp) :=
  sampleRun (samplePublish ++ [sampleIntroduction 3 n 1, sampleIntroduction 4 m 2])

/-- Two peers introduce themselves, and the topic is left; it is joined again,
and the first peer introduces itself under `n`, before the two are disconnected. -/
def sampleReturn (n : UInt8) : List (PeerLimits × RosterOp) :=
  sampleIntroductions 5 6 ++ sampleRun ([.leave Book.sampleTopic] ++ samplePublish ++
    [sampleIntroduction 3 n 3, .disconnectAll 0 (Book.sampleCtx 4) kGoingAway fun _ => []])

end Roster

theorem attempts_index_peers_sample :
    AllSteps (Roster.AllEffects Primitives.checksum Roster.Unclaimed)
        (Roster.stepUnder Primitives.checksum) (Roster.fresh {}) (Roster.sampleReturn 7) ∧
      (run (Roster.stepUnder Primitives.checksum) (Roster.fresh {})
        (Roster.sampleReturn 7)).book.attempts.lookup (Vector.replicate 16 7) =
          some (Book.sampleKey 3) ∧
      ∀ n k, (run (Roster.stepUnder Primitives.checksum) (Roster.fresh {})
          (Roster.sampleReturn 7)).book.attempts.lookup n = some k ↔
        (∃ p, (run (Roster.stepUnder Primitives.checksum) (Roster.fresh {})
          (Roster.sampleReturn 7)).book.peers.lookup k = some p ∧ p.attempt = some n) ∨
        (run (Roster.stepUnder Primitives.checksum) (Roster.fresh {})
          (Roster.sampleReturn 7)).LeftUnder k n := by
  have hfree : AllSteps (Roster.AllEffects Primitives.checksum Roster.Unclaimed)
      (Roster.stepUnder Primitives.checksum) (Roster.fresh {}) (Roster.sampleReturn 7) := by
    decide +kernel
  exact ⟨hfree, by decide +kernel, (attempts_index_peers Primitives.checksum {} _ hfree).1⟩

/-- A peer that returns under the nonce it was on when the topic was left loses
its entry when the old peer is disconnected. -/
example : (run (Roster.stepUnder Primitives.checksum) (Roster.fresh {})
      (Roster.sampleReturn 5)).book.attemptOf (Book.sampleKey 3) = some (Vector.replicate 16 5) ∧
    (run (Roster.stepUnder Primitives.checksum) (Roster.fresh {})
      (Roster.sampleReturn 5)).book.attempts.lookup (Vector.replicate 16 5) = none := by
  decide +kernel

/-- Two peers that introduce themselves under one nonce: the table knows the
second only, though no topic has been left. -/
theorem shared_nonce_loses_a_peer :
    (run (Roster.stepUnder Primitives.checksum) (Roster.fresh {})
        (Roster.sampleIntroductions 5 5)).leaving.isEmpty ∧
      ¬ ∀ n k, (run (Roster.stepUnder Primitives.checksum) (Roster.fresh {})
          (Roster.sampleIntroductions 5 5)).book.attempts.lookup n = some k ↔
        ∃ p, (run (Roster.stepUnder Primitives.checksum) (Roster.fresh {})
          (Roster.sampleIntroductions 5 5)).book.peers.lookup k = some p ∧ p.attempt = some n := by
  refine ⟨by decide +kernel, fun h => ?_⟩
  have hpeer : (run (Roster.stepUnder Primitives.checksum) (Roster.fresh {})
      (Roster.sampleIntroductions 5 5)).book.attemptOf (Book.sampleKey 3) =
        some (Vector.replicate 16 5) := by
    decide +kernel
  have htable : (run (Roster.stepUnder Primitives.checksum) (Roster.fresh {})
      (Roster.sampleIntroductions 5 5)).book.attempts.lookup (Vector.replicate 16 5) ≠
        some (Book.sampleKey 3) := by
    decide +kernel
  exact htable ((h _ _).mpr (Option.bind_eq_some_iff.mp hpeer))

/-- In every run in which `adopt_attempt` is never called with a nonce that is
another peer's, that the peer was on when its topic was left or that the peer
has had a session under, and in which no session is started under an attempt of
a topic being left, at most one session comes up under any topic, peer and
nonce. -/
theorem nonce_accepted_once (P : Primitives) (cfg : NodeConfig)
    (ops : List (PeerLimits × RosterOp))
    (hfree : AllSteps (fun r o => r.AllEffects P Roster.Untried o ∧ r.StartsClear o.2)
      (Roster.stepUnder P) (Roster.fresh cfg) ops) (k : PeerKey) (n : AttemptNonce) :
    (run (Roster.stepUnder P) (Roster.fresh cfg) ops).book.established.count (k, n) ≤ 1 := by
  have hinv := run_invariant_of_allSteps
    (I := fun r => Book.Ledger r.book ∧ Roster.Indexed Book.OwnAttempt r)
    (fun r o hok h => Roster.ledger_step P h.1 h.2 hok.2 hok.1)
    ⟨Book.ledger_fresh cfg, Roster.indexed_fresh _ cfg⟩ ops hfree
  exact List.nodup_iff_count_le_one.mp hinv.1.once (k, n)

namespace Book

/-- The attempt of the samples. -/
def sampleAttempt : AttemptNonce := Vector.replicate 16 5

/-- The first message of the peer with device 3. -/
def sampleMessage1 : Bytes :=
  (TcpSession.initiate Primitives.checksum {} sampleTopic 0 none (sampleKey 3).2 sampleSelf
    sampleAttempt 0 (Vector.replicate 32 4) (Vector.replicate 16 8)).out

end Book

namespace Roster

/-- A peer's connection arrives with the first message on it. -/
def sampleArrival (now : Instant) : List RosterOp :=
  [.book (.accept {} now),
    .book (.drivePending 0 (Book.sampleCtx now) { recvs := [.data Book.sampleMessage1] } {}
      (Vector.replicate 32 7) (Vector.replicate 16 0) {}),
    .book .reap]

/-- The peer introduces itself and its connection arrives. -/
def sampleSession (now : Instant) : List RosterOp :=
  sampleIntroduction 3 5 now :: sampleArrival now

/-- The connection is lost. -/
def sampleLoss (now : Instant) : RosterOp :=
  .book (.act (Book.sampleKey 3) (Book.sampleCtx now) (.drive { recvs := [.failed] }))

/-- A session comes up and is lost, and the topic is left and joined again. -/
def sampleSessions : List (PeerLimits × RosterOp) :=
  sampleRun (samplePublish ++ sampleSession 1 ++ [sampleLoss 2, .leave Book.sampleTopic,
    .disconnectAll 0 (Book.sampleCtx 3) kGoingAway fun _ => []] ++ samplePublish)

/-- The peer introduces itself, and the topic is left, joined again and the peer
found, before the old one is disconnected; its connection arrives, is lost, and
arrives again. -/
def sampleTwice : List (PeerLimits × RosterOp) :=
  sampleRun (samplePublish ++ [sampleIntroduction 3 5 1, .leave Book.sampleTopic] ++
    samplePublish ++ [.book (.act (Book.sampleKey 3) (Book.sampleCtx 2) (.learn []))] ++
    sampleArrival 3 ++ [sampleLoss 4] ++ sampleArrival 5)

/-- The same introduction and the same first message are delivered again when
the session has ended. -/
def sampleReplay : List (PeerLimits × RosterOp) :=
  sampleRun (samplePublish ++ sampleSession 1 ++ [sampleLoss 2] ++ sampleSession 3)

end Roster

theorem nonce_accepted_once_sample :
    AllSteps (fun r o => r.AllEffects Primitives.checksum Roster.Untried o ∧ r.StartsClear o.2)
        (Roster.stepUnder Primitives.checksum) (Roster.fresh {}) Roster.sampleSessions ∧
      (run (Roster.stepUnder Primitives.checksum) (Roster.fresh {})
        Roster.sampleSessions).book.established = [(Book.sampleKey 3, Book.sampleAttempt)] ∧
      (run (Roster.stepUnder Primitives.checksum) (Roster.fresh {})
        Roster.sampleSessions).book.established.count (Book.sampleKey 3, Book.sampleAttempt) ≤
          1 := by
  have hfree : AllSteps
      (fun r o => r.AllEffects Primitives.checksum Roster.Untried o ∧ r.StartsClear o.2)
      (Roster.stepUnder Primitives.checksum) (Roster.fresh {}) Roster.sampleSessions := by
    decide +kernel
  exact ⟨hfree, by decide +kernel, nonce_accepted_once Primitives.checksum {} _ hfree _ _⟩

/-- Under an attempt of a topic being left a peer has two sessions, though its
nonce is taken up only once. -/
example : AllSteps (Roster.AllEffects Primitives.checksum Roster.Untried)
      (Roster.stepUnder Primitives.checksum) (Roster.fresh {}) Roster.sampleTwice ∧
    (run (Roster.stepUnder Primitives.checksum) (Roster.fresh {})
      Roster.sampleTwice).book.established.count (Book.sampleKey 3, Book.sampleAttempt) = 2 := by
  decide +kernel

/-- The replay makes another session. -/
theorem repeated_introduction_accepted_again :
    ¬ (run (Roster.stepUnder Primitives.checksum) (Roster.fresh {})
      Roster.sampleReplay).book.established.count (Book.sampleKey 3, Book.sampleAttempt) ≤ 1 := by
  decide +kernel

end UConnect.Node
