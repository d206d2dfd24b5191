/-
  Node/Attempts.lean --- the table of attempts and the peers' attempts.

  Source: src/api/node.cpp, `Node::Impl::attempts` with `adopt_attempt` and
  `end_attempt`.

  A nonce comes from the peer, and nothing keeps two peers from giving the same
  one.  Where that does not happen, one operation keeps the table and the peers
  in step.  The table also leads to peers whose topic is being left; `L` stands
  for them here, the peers taken out of the map with the nonce each is on, and
  Node/Leaving says which they are in a run.
-/
import UConnect.Node.AttemptTrace

set_option autoImplicit false

namespace UConnect.Node

open UConnect.Foundation UConnect.Crypto UConnect.Wire

namespace Book

/-! ## What an operation leaves alone

Only the tables of the peer it works on, and of that only what its effects say. -/

/-- The attempt of a peer, if it has one: `Peer.attempt`, read through the
topic's map, so a peer that is not there has none. -/
def attemptOf (b : Book) (k : PeerKey) : Option AttemptNonce :=
  (b.peers.lookup k).bind Peer.attempt

/-- The sessions of all peers, between operations. -/
def Resting (Q : Option AttemptNonce → AttemptNonce → Prop) (b : Book) : Prop :=
  ∀ k p, b.peers.lookup k = some p → Rests Q { peer := p }

/-- A session that the operation starts is under an attempt that `Q` relates to
the peer's. -/
def StartsUnder (Q : Option AttemptNonce → AttemptNonce → Prop) (b : Book) : BookOp → Prop
  | .drivePending i x io io' _ _ _ =>
      ∀ pc pc', b.pending[i]? = some pc → pc.dead = false →
        b.drivePending x.now io io' pc = (.start, pc') → Q (b.attemptOf pc'.key) pc'.attempt
  | _ => True

/-- The session that `drive_pending` starts: its peer and its attempt. -/
def started (b : Book) : BookOp → Option (PeerKey × AttemptNonce)
  | .drivePending i x io io' _ _ _ =>
      match b.pending[i]? with
      | none => none
      | some pc =>
          if pc.dead then none
          else
            match b.drivePending x.now io io' pc with
            | (.start, pc) => some (pc.key, pc.attempt)
            | _ => none
  | _ => none

section Outcomes

variable (P : Primitives) {Q : Option AttemptNonce → AttemptNonce → Prop} {b b' : Book}
  {op : BookOp} {k : PeerKey} {x : Ctx} {e : Entry}

theorem attemptOf_of_lookup {p : Peer} (h : b.peers.lookup k = some p) :
    b.attemptOf k = p.attempt := by
  rw [attemptOf, h]
  rfl

theorem attemptOf_of_none (h : b.peers.lookup k = none) : b.attemptOf k = none := by
  rw [attemptOf, h]
  rfl

/-- A call on a peer, from the record it finds or makes. -/
theorem called_tracks (hrests : b.Resting Q) {a : PeerAct} (h : b.called P k x a = some e) :
    Tracks Q (b.attemptOf k) e.effects e.peer.attempt ∧ Rests Q e := by
  have hact : ∀ p : Peer, Rests Q ({ peer := p } : Entry) → p.attempt = b.attemptOf k →
      e = ({ peer := p } : Entry).act P (b.env k.1 x) a →
      Tracks Q (b.attemptOf k) e.effects e.peer.attempt ∧ Rests Q e := by
    rintro p hp hattempt rfl
    obtain ⟨⟨fs, hfs, ht⟩, hrests'⟩ := @Rests.act P Q (b.env k.1 x) { peer := p } hp a
    refine ⟨?_, hrests'⟩
    rw [hfs, ← hattempt]
    exact ht
  unfold called at h
  split at h
  · cases h
  · split at h
    · rename_i p hp
      exact hact p (hrests k p hp) (attemptOf_of_lookup hp).symm (Option.some.inj h).symm
    · rename_i hnone
      split at h
      · refine hact { devId := k.2 } (rests_none rfl) ?_ (Option.some.inj h).symm
        rw [attemptOf_of_none hnone]
      · cases h

/-- Before its own peer is worked on, an operation changes topics and
connections, or drops a peer without an attempt. -/
theorem outcome_base (b : Book) (op : BookOp) :
    (∃ c ts pd, (b.outcome P op).1 = { b with ctlUp := c, topics := ts, pending := pd }) ∨
      ∃ k p, op = .trim k ∧ b.peers.lookup k = some p ∧ p.attempt = none ∧
        (b.outcome P op).1 = { b with peers := b.peers.erase k } := by
  cases op with
  | join t psk =>
      left
      unfold outcome
      simp only
      split <;> exact ⟨_, _, _, rfl⟩
  | setSelf t self =>
      left
      unfold outcome
      simp only
      split <;> exact ⟨_, _, _, rfl⟩
  | control up => exact Or.inl ⟨_, _, _, rfl⟩
  | act k x a => exact Or.inl ⟨_, _, _, rfl⟩
  | joinRelay k x reach join =>
      left
      unfold outcome
      simp only
      split
      · exact ⟨_, _, _, rfl⟩
      · split
        · exact ⟨_, _, _, rfl⟩
        · split
          · exact ⟨_, _, _, rfl⟩
          · simp only
            split <;> exact ⟨_, _, _, rfl⟩
  | accept target now => exact Or.inl ⟨_, _, _, rfl⟩
  | drivePending i x io io' random padding peerIo =>
      left
      unfold outcome
      simp only
      split
      · exact ⟨_, _, _, rfl⟩
      · split
        · exact ⟨_, _, _, rfl⟩
        · split <;> exact ⟨_, _, _, rfl⟩
  | reap => exact Or.inl ⟨_, _, _, rfl⟩
  | disconnect k x reason sends => exact Or.inl ⟨_, _, _, rfl⟩
  | trim k =>
      unfold outcome
      simp only
      split
      · rename_i hidle
        obtain ⟨p, hp, hfree⟩ := Option.any_eq_true _ _ |>.mp hidle
        simp only [Bool.and_eq_true, Option.isNone_iff_eq_none] at hfree
        exact Or.inr ⟨k, p, rfl, hp, hfree.1.2, rfl⟩
      · exact Or.inl ⟨_, _, _, rfl⟩

theorem outcome_attempts (b : Book) (op : BookOp) :
    (b.outcome P op).1.attempts = b.attempts ∧
      (b.outcome P op).1.established = b.established := by
  rcases outcome_base P b op with ⟨_, _, _, h⟩ | ⟨_, _, _, _, _, h⟩
  · rw [h]
    exact ⟨rfl, rfl⟩
  · rw [h]
    exact ⟨rfl, rfl⟩

theorem outcome_peers (b : Book) (op : BookOp) (k : PeerKey) :
    (b.outcome P op).1.attemptOf k = b.attemptOf k ∧
      ∀ p, (b.outcome P op).1.peers.lookup k = some p → b.peers.lookup k = some p := by
  rcases outcome_base P b op with ⟨_, _, _, h⟩ | ⟨k', p, -, hp, hfree, h⟩
  · rw [h]
    exact ⟨rfl, fun p hp => hp⟩
  · rw [h]
    rcases Decidable.em (k = k') with hk | hk
    · subst hk
      rw [attemptOf, attemptOf, hp, AList.lookup_erase]
      refine ⟨hfree.symm, ?_⟩
      intro p' hp'
      cases hp'
    · rw [attemptOf, attemptOf, AList.lookup_erase_ne hk]
      exact ⟨rfl, fun p hp => hp⟩

/-- An operation that works on a peer has changed none before. -/
theorem outcome_same_peers (h : (b.outcome P op).2 = some (k, x, e)) :
    (b.outcome P op).1.peers = b.peers := by
  rcases outcome_base P b op with ⟨_, _, _, hbase⟩ | ⟨_, _, rfl, _⟩
  · rw [hbase]
  · cases h

/-- The entry an operation works on tells of every change to the peer's attempt. -/
theorem outcome_tracks (hrests : b.Resting Q) (hstart : b.StartsUnder Q op)
    (h : (b.outcome P op).2 = some (k, x, e)) :
    Tracks Q (b.attemptOf k) e.effects e.peer.attempt ∧
      (if drops op then e.peer.attempt = none else Rests Q e) := by
  cases op with
  | join t psk => cases h
  | setSelf t self => cases h
  | control up => cases h
  | act k' x' a =>
      obtain ⟨e', hcalled, he'⟩ := Option.map_eq_some_iff.mp h
      cases he'
      exact called_tracks P hrests hcalled
  | joinRelay k' x' reach join =>
      unfold outcome at h
      simp only at h
      split at h
      · cases h
      · rename_i p hp
        split at h
        · cases h
        · rename_i n hn
          split at h
          · cases h
          · cases h
            refine ⟨?_, ?_⟩
            · rw [attemptOf_of_lookup hp]
              exact .nil _
            · exact Rests.of_peer (hrests _ p hp) rfl rfl
  | accept target now => cases h
  | drivePending i x' io io' random padding peerIo =>
      unfold outcome at h
      simp only at h
      split at h
      · cases h
      · rename_i pc hpc
        split at h
        · cases h
        · rename_i hlive
          split at h
          · rename_i pc' hjudge
            obtain ⟨p, hp, he⟩ := Option.map_eq_some_iff.mp h
            cases he
            have hQ := hstart pc pc' hpc (by simpa using hlive) hjudge
            rw [attemptOf_of_lookup hp] at hQ ⊢
            obtain ⟨⟨fs, hfs, ht⟩, hrests'⟩ := @follows_startSession P Q (b.env pc'.topic x)
              { peer := p } (b.connection pc' random padding) (hrests _ p hp) hQ peerIo
            refine ⟨?_, hrests'⟩
            rw [hfs]
            exact ht
          · cases h
          · cases h
  | reap => cases h
  | disconnect k' x' reason sends =>
      obtain ⟨p, hp, he⟩ := Option.map_eq_some_iff.mp h
      cases he
      obtain ⟨⟨fs, hfs, ht⟩, hnone⟩ :=
        @follows_disconnectPeer P Q { peer := p } reason sends
      refine ⟨?_, hnone⟩
      rw [attemptOf_of_lookup hp, hfs]
      exact ht
  | trim k' => cases h

end Outcomes

/-! ## The index

The library's index, with attempts for values, peers for owners, and the peers
of topics that are being left set aside. -/

/-- `adopt_attempt` is not called with a nonce under which the table holds
another peer, nor with one that the peer was on when its topic was left (`L`). -/
def Unclaimed (L : PeerKey → AttemptNonce → Prop) (k : PeerKey) (b : Book) : Effect → Prop
  | .adopt _ n => (∀ k' ∈ b.attempts.lookup n, k' = k) ∧ ¬ L k n
  | _ => True

instance Unclaimed.decidable (L : PeerKey → AttemptNonce → Prop) [∀ k n, Decidable (L k n)]
    (k : PeerKey) (b : Book) : (f : Effect) → Decidable (Unclaimed L k b f)
  | .adopt _ n => inferInstanceAs (Decidable ((∀ k' ∈ b.attempts.lookup n, k' = k) ∧ ¬ L k n))
  | .erase _ => inferInstanceAs (Decidable True)
  | .connect _ => inferInstanceAs (Decidable True)
  | .dial _ _ => inferInstanceAs (Decidable True)
  | .relayAlloc => inferInstanceAs (Decidable True)
  | .established _ => inferInstanceAs (Decidable True)

/-- The table finds the peer of every attempt, where the peer with key `k` is
taken to be on attempt `a`, and those of `L`. -/
def IndexedAt (L : PeerKey → AttemptNonce → Prop) (b : Book) (k : PeerKey)
    (a : Option AttemptNonce) : Prop :=
  Indexes L (fun n => b.attempts.lookup n) (Function.update b.attemptOf k a)

section Index

variable {L : PeerKey → AttemptNonce → Prop} {Q : Option AttemptNonce → AttemptNonce → Prop}
  {b : Book} {k : PeerKey} {x : Ctx} {a a' : Option AttemptNonce} {n : AttemptNonce}

theorem indexedAt_self :
    b.IndexedAt L k (b.attemptOf k) ↔ Indexes L (fun n => b.attempts.lookup n) b.attemptOf := by
  rw [IndexedAt, Function.update_eq_self]

/-- Tables with the same attempts and the same peers. -/
theorem IndexedAt.congr {b' : Book} (h : b.IndexedAt L k a) (ht : b'.attempts = b.attempts)
    (hp : b'.peers = b.peers) : b'.IndexedAt L k a := by
  have hof : b'.attemptOf = b.attemptOf := by
    funext k'
    rw [attemptOf, attemptOf, hp]
  rw [IndexedAt, ht, hof]
  exact h

theorem IndexedAt.lookup (h : b.IndexedAt L k (some n)) : b.attempts.lookup n = some k :=
  h.find (Function.update_self ..)

theorem IndexedAt.erase (h : b.IndexedAt L k (some n)) :
    (b.effect x k (.erase n)).IndexedAt L k none := by
  have hrel := h.release (Function.update_self k (some n) b.attemptOf)
  rw [Function.update_idem, ← lookup_erase_update] at hrel
  exact hrel

/-- A nonce is taken up by a peer that is on none. -/
theorem IndexedAt.insert (h : b.IndexedAt L k none)
    (hfree : ∀ k' ∈ b.attempts.lookup n, k' = k) (hleft : ¬ L k n) :
    ({ b with attempts := b.attempts.insert n k } : Book).IndexedAt L k (some n) := by
  have htake := h.take (a := n) (Function.update_self k none b.attemptOf) (by
    intro j hj
    have hjk := hfree j hj
    subst hjk
    rcases (h.finds n j).mp hj with hheld | haside
    · rw [Function.update_self] at hheld
      cases hheld
    · exact hleft haside)
  rw [Function.update_idem, ← lookup_insert_update] at htake
  exact htake

theorem IndexedAt.adopt (h : b.IndexedAt L k a) (hfree : Unclaimed L k b (.adopt a n)) :
    (b.effect x k (.adopt a n)).IndexedAt L k (some n) := by
  obtain ⟨hother, hleft⟩ := hfree
  cases a with
  | none => exact h.insert hother hleft
  | some old =>
      have herased : (b.effect x k (.erase old)).IndexedAt L k none := h.erase
      have hother' : ∀ k' ∈ (b.effect x k (.erase old)).attempts.lookup n, k' = k := by
        intro k' hk'
        change (b.attempts.erase old).lookup n = some k' at hk'
        rcases Decidable.em (n = old) with hn | hn
        · rw [hn, AList.lookup_erase] at hk'
          cases hk'
        · rw [AList.lookup_erase_ne hn] at hk'
          exact hother k' hk'
      exact (herased.insert hother' hleft).congr rfl rfl

theorem dialOne_attempts (c : Candidate) :
    (b.dialOne x k n c).attempts = b.attempts ∧ (b.dialOne x k n c).peers = b.peers ∧
      (b.dialOne x k n c).established = b.established := by
  unfold dialOne
  repeat' split
  all_goals exact ⟨rfl, rfl, rfl⟩

/-- Dialing makes connections and nothing else. -/
theorem dial_frame (cands : List Candidate) (b : Book) :
    (b.effect x k (.dial n cands)).attempts = b.attempts ∧
      (b.effect x k (.dial n cands)).peers = b.peers ∧
      (b.effect x k (.dial n cands)).established = b.established := by
  change (cands.foldl (dialOne x k n) b).attempts = _ ∧ (cands.foldl (dialOne x k n) b).peers = _ ∧
    (cands.foldl (dialOne x k n) b).established = _
  induction cands generalizing b with
  | nil => exact ⟨rfl, rfl, rfl⟩
  | cons c cands ih =>
      obtain ⟨hattempts, hpeers, hest⟩ := @dialOne_attempts b k x n c
      obtain ⟨hattempts', hpeers', hest'⟩ := ih (b.dialOne x k n c)
      exact ⟨hattempts'.trans hattempts, hpeers'.trans hpeers, hest'.trans hest⟩

/-- No effect touches the peers. -/
theorem effect_peers (b : Book) (f : Effect) : (b.effect x k f).peers = b.peers := by
  cases f with
  | erase n => rfl
  | adopt old n => cases old <;> rfl
  | connect n => rfl
  | dial n cands => exact (dial_frame cands b).2.1
  | relayAlloc => rfl
  | established n => rfl

theorem run_effect_peers (b : Book) (fs : List Effect) :
    (run (effect x k) b fs).peers = b.peers := by
  induction fs generalizing b with
  | nil => rfl
  | cons f fs ih =>
      rw [run_cons, ih]
      exact effect_peers b f

/-- The end of an attempt by a session that comes up. -/
theorem IndexedAt.ended (h : b.IndexedAt L k a) :
    (run (effect x k) b (a.map Effect.erase).toList).IndexedAt L k none := by
  cases a with
  | none => exact h
  | some n => exact @IndexedAt.erase L b k x n h

/-- Effects that track the attempt of a peer keep the index in step with it. -/
theorem IndexedAt.tracks {fs : List Effect} (ht : Tracks Q a fs a') (h : b.IndexedAt L k a)
    (hfree : AllSteps (Unclaimed L k) (effect x k) b fs) :
    (run (effect x k) b fs).IndexedAt L k a' := by
  induction ht generalizing b with
  | nil a => exact h
  | erase _ ih => exact ih h.erase hfree.2
  | adopt _ ih => exact ih (h.adopt hfree.1) hfree.2
  | connect _ ih => exact ih h hfree.2
  | dial _ ih =>
      obtain ⟨hattempts, hpeers, -⟩ := @dial_frame k x _ _ b
      exact ih (h.congr hattempts hpeers) hfree.2
  | relayAlloc _ ih => exact ih h hfree.2
  | @established a _ n _ _ _ ih =>
      rw [run_cons, run_append]
      obtain ⟨-, hrest⟩ := allSteps_append.mp hfree.2
      have hlogged : (b.effect x k (.established n)).IndexedAt L k a := h.congr rfl rfl
      exact ih hlogged.ended hrest

end Index

/-! ## Steps

One operation, on all the tables. -/

/-- The table and the peers agree, and so do the peers' sessions. -/
structure Consistent (L : PeerKey → AttemptNonce → Prop)
    (Q : Option AttemptNonce → AttemptNonce → Prop) (b : Book) : Prop where
  index : Indexes L (fun n => b.attempts.lookup n) b.attemptOf
  resting : b.Resting Q

section Steps

variable (P : Primitives) {L : PeerKey → AttemptNonce → Prop}
  {Q : Option AttemptNonce → AttemptNonce → Prop} {b : Book} {op : BookOp}

/-- A step commits an entry, or does what it does to the tables. -/
theorem step_cases (b : Book) (op : BookOp) :
    ((b.outcome P op).2 = none ∧ b.step P op = (b.outcome P op).1) ∨
      ∃ k x e, (b.outcome P op).2 = some (k, x, e) ∧
        b.step P op =
          { run (effect x k) (b.outcome P op).1 e.effects with
            peers := if drops op then ((b.outcome P op).1.peers.insert k e.peer).erase k
              else (b.outcome P op).1.peers.insert k e.peer } := by
  unfold step
  cases hout : b.outcome P op with
  | mk b' o =>
      cases o with
      | none => exact Or.inl ⟨rfl, rfl⟩
      | some r =>
          obtain ⟨k, x, e⟩ := r
          refine Or.inr ⟨k, x, e, rfl, ?_⟩
          simp only [commit, run_effect_peers]
          split <;> rfl

theorem allSteps_of_allEffects {C : PeerKey → Book → Effect → Prop} {k : PeerKey} {x : Ctx}
    {e : Entry} (h : b.AllEffects P C op) (hout : (b.outcome P op).2 = some (k, x, e)) :
    AllSteps (C k) (effect x k) (b.outcome P op).1 e.effects := by
  unfold AllEffects at h
  generalize b.outcome P op = o at h hout ⊢
  obtain ⟨b', r⟩ := o
  cases hout
  exact h

/-- The peer of a committed entry, or none if it is dropped. -/
theorem lookup_commit {ps : AList fun _ : PeerKey => Peer} {k : PeerKey} {p : Peer} {drop : Bool}
    (k' : PeerKey) :
    (if drop then (ps.insert k p).erase k else ps.insert k p).lookup k' =
      if k' = k then (if drop then none else some p) else ps.lookup k' := by
  cases drop with
  | false =>
      rcases Decidable.em (k' = k) with hk | hk
      · subst hk
        simp
      · simp [hk]
  | true =>
      rcases Decidable.em (k' = k) with hk | hk
      · subst hk
        simp
      · simp [hk]

/-- The peers after a step: the one the step worked on, and the others. -/
theorem lookup_step {k : PeerKey} {x : Ctx} {e : Entry}
    (heq : b.step P op = { run (effect x k) (b.outcome P op).1 e.effects with
      peers := if drops op then ((b.outcome P op).1.peers.insert k e.peer).erase k
        else (b.outcome P op).1.peers.insert k e.peer }) (k' : PeerKey) :
    (b.step P op).peers.lookup k' =
      if k' = k then (if drops op then none else some e.peer)
      else (b.outcome P op).1.peers.lookup k' := by
  rw [heq]
  exact lookup_commit k'

/-- One operation leaves the sessions of all peers at rest. -/
theorem Resting.step (h : b.Resting Q) (hstart : b.StartsUnder Q op) :
    (b.step P op).Resting Q := by
  rcases step_cases P b op with ⟨-, heq⟩ | ⟨k, x, e, hout, heq⟩
  · rw [heq]
    exact fun k p hp => h k p ((outcome_peers P b op k).2 p hp)
  · obtain ⟨-, hend⟩ := outcome_tracks P h hstart hout
    intro k' p hp
    rw [lookup_step P heq k'] at hp
    split at hp
    · split at hp
      · cases hp
      · rename_i hdrop
        cases hp
        rw [if_neg hdrop] at hend
        exact Rests.of_peer hend rfl rfl
    · exact h k' p ((outcome_peers P b op k').2 p hp)

/-- The attempts after a step that has worked on a peer. -/
theorem attemptOf_step {k : PeerKey} {x : Ctx} {e : Entry}
    (heq : b.step P op = { run (effect x k) (b.outcome P op).1 e.effects with
      peers := if drops op then ((b.outcome P op).1.peers.insert k e.peer).erase k
        else (b.outcome P op).1.peers.insert k e.peer })
    (hdrop : drops op = true → e.peer.attempt = none) :
    (b.step P op).attemptOf =
      Function.update (run (effect x k) (b.outcome P op).1 e.effects).attemptOf k
        e.peer.attempt := by
  funext k'
  rw [attemptOf, lookup_step P heq k']
  rcases Decidable.em (k' = k) with hk | hk
  · subst hk
    rw [if_pos rfl, Function.update_self]
    cases hd : drops op with
    | false => rfl
    | true => exact (hdrop hd).symm
  · rw [if_neg hk, Function.update_of_ne hk, attemptOf, run_effect_peers]

/-- One operation keeps the table and the peers in step, if it takes up no nonce
that is another peer's or one of `L`. -/
theorem Consistent.step (h : Consistent L Q b) (hstart : b.StartsUnder Q op)
    (hfree : b.AllEffects P (Unclaimed L) op) : Consistent L Q (b.step P op) := by
  obtain ⟨hattempts, -⟩ := outcome_attempts P b op
  have hof : (b.outcome P op).1.attemptOf = b.attemptOf :=
    funext fun k => (outcome_peers P b op k).1
  have hindex : Indexes L (fun n => (b.outcome P op).1.attempts.lookup n)
      (b.outcome P op).1.attemptOf := by
    rw [hattempts, hof]
    exact h.index
  refine ⟨?_, h.resting.step P hstart⟩
  rcases step_cases P b op with ⟨-, heq⟩ | ⟨k, x, e, hout, heq⟩
  · rw [heq]
    exact hindex
  · obtain ⟨ht, hend⟩ := outcome_tracks P h.resting hstart hout
    rw [← hof] at ht
    have hafter := (indexedAt_self.mpr hindex).tracks ht (allSteps_of_allEffects P hfree hout)
    have hdrop : drops op = true → e.peer.attempt = none := by
      intro hd
      rw [if_pos hd] at hend
      exact hend
    rw [attemptOf_step P heq hdrop, heq]
    exact hafter

/-- The peer an operation works on, if it works on one. -/
def worksOn (b : Book) (op : BookOp) : Option PeerKey := (b.outcome P op).2.map Prod.fst

/-- An operation leaves alone the attempts of the peers it does not work on. -/
theorem attemptOf_step_ne {k' : PeerKey} (hk' : b.worksOn P op ≠ some k') :
    (b.step P op).attemptOf k' = b.attemptOf k' := by
  rw [← (outcome_peers P b op k').1]
  rcases step_cases P b op with ⟨-, heq⟩ | ⟨k, x, e, hout, heq⟩
  · rw [heq]
  · have hne : k' ≠ k := by
      rintro rfl
      apply hk'
      rw [worksOn, hout]
      rfl
    rw [attemptOf, attemptOf, heq]
    simp only [lookup_commit, if_neg hne]

end Steps

/-- A node before anything happens. -/
def fresh (cfg : NodeConfig) : Book where
  cfg := cfg

theorem consistent_fresh {L : PeerKey → AttemptNonce → Prop} (hL : ∀ k n, ¬ L k n)
    (Q : Option AttemptNonce → AttemptNonce → Prop) (cfg : NodeConfig) :
    Consistent L Q (fresh cfg) := by
  refine ⟨indexes_empty hL, ?_⟩
  intro k p hp
  cases hp

end Book

end UConnect.Node
