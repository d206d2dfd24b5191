/-
  Node/Admission.lean --- the limits on peers hold.

  Source: src/api/node.cpp, `can_admit` and the places that give a peer a
  session or an attempt: `on_relayed`, `adopt_attempt`, `begin_connect` and
  `start_session`.

  `start_session` does not ask for room: its peer has a slot, since the
  connection leads to the peer through the table of attempts.  A connection made
  under an attempt of a topic that is being left leads to a peer of the topic
  joined again, which may have none; apart from that no step goes over the
  limits (`peer_limits_hold`).
-/
import UConnect.Node.Leaving

set_option autoImplicit false

namespace UConnect.Node

open UConnect.Foundation UConnect.Crypto UConnect.Wire

/-! ## A peer takes a slot when there is room

The functions that give a peer a session or an attempt ask for room first, but
for one. -/

theorem Peer.live_eq_false {p : Peer} : p.live = false ↔ p.sess = none ∧ p.attempt = none := by
  unfold Peer.live
  rw [Bool.or_eq_false_iff, Option.isSome_eq_false_iff, Option.isSome_eq_false_iff,
    Option.isNone_iff_eq_none, Option.isNone_iff_eq_none]

section Slots

variable {R : TcpSession → TcpSession → Prop} {env : Env} {e e' : Entry}

theorem eq_none_of_goes {o : Option TcpSession} (h : Goes R none o) : o = none := by
  cases h
  rfl

theorem Minor.idle (h : Minor R e e') (hidle : e.peer.live = false) : e'.peer.live = false := by
  obtain ⟨hs, ha⟩ := Peer.live_eq_false.mp hidle
  have hsess := h.sess
  rw [hs] at hsess
  exact Peer.live_eq_false.mpr ⟨eq_none_of_goes hsess, h.attempt.trans ha⟩

theorem idle_beginConnect (hidle : e.peer.live = false) (hroom : env.room = false) :
    e.beginConnect env = e := by
  obtain ⟨hs, ha⟩ := Peer.live_eq_false.mp hidle
  have hrefused : canAdmit env e.peer = false := by
    unfold canAdmit
    rw [hs, ha, hroom]
    rfl
  unfold Entry.beginConnect
  split
  · rfl
  · split
    · rfl
    · split
      · rfl
      · rw [hrefused]
        rfl

theorem idle_driveRetry (hidle : e.peer.live = false) (hroom : env.room = false) :
    (e.driveRetry env).peer.live = false := by
  unfold Entry.driveRetry
  split
  · have hreset : ({ e with peer := { e.peer with retryAt := 0 } } : Entry).peer.live = false := hidle
    simp only
    rw [idle_beginConnect hreset hroom]
    split
    · rw [Entry.setPeerState_peer]
      exact hidle
    · exact hidle
  · exact hidle

variable (P : Primitives)

theorem idle_drivePeer (hidle : e.peer.live = false) (hroom : env.room = false) (io : Io) :
    (e.drivePeer P env io).peer.live = false := by
  obtain ⟨hs, ha⟩ := Peer.live_eq_false.mp (idle_driveRetry hidle hroom)
  have hsame : e.drivePeer P env io = e.driveRetry env := by
    unfold Entry.drivePeer
    simp only [hs, ha, Option.isSome_none, Bool.false_and, Bool.false_eq_true, if_false]
  rw [hsame]
  exact idle_driveRetry hidle hroom

/-- Without room, a peer that holds no slot gets none. -/
theorem idle_act (hidle : e.peer.live = false) (hroom : env.room = false) (a : PeerAct) :
    (e.act P env a).peer.live = false := by
  obtain ⟨hs, ha⟩ := Peer.live_eq_false.mp hidle
  cases a with
  | learn cands =>
      unfold Entry.act
      simp only
      split <;> exact hidle
  | discovered cands stale =>
      have hcands : (e.withCands cands).peer.live = false := hidle
      unfold Entry.act
      simp only
      split
      · exact hidle
      · split
        · exact hcands
        · rw [idle_beginConnect hcands hroom]
          exact hcands
  | connect =>
      change (e.beginConnect env).peer.live = false
      rw [idle_beginConnect hidle hroom]
      exact hidle
  | relayed attempt cands io =>
      have hrefused : canAdmit env e.peer = false := by
        unfold canAdmit
        rw [hs, ha, hroom]
        rfl
      change (e.onRelayed P env attempt cands io).peer.live = false
      unfold Entry.onRelayed
      split
      · exact hidle
      · rw [hrefused]
        exact hidle
  | relayRefused =>
      unfold Entry.act
      simp only
      split
      · rw [Entry.setPeerState_peer, Entry.endAttempt_peer]
        exact Peer.live_eq_false.mpr ⟨hs, rfl⟩
      · exact hidle
  | drive io => exact idle_drivePeer P hidle hroom io
  | driveOffer udp offer =>
      exact (Entry.driveOffer_minor P env.cfg e env.now udp offer).idle hidle
  | send kind body sends => exact (Entry.sendRecord_minor P e env.now kind body sends).idle hidle
  | openDatagrams fb => exact (Entry.openDatagrams_minor P env.cfg e env.now fb).idle hidle
  | closeDatagrams sends => exact (Entry.closeDatagrams_minor P e env.now sends).idle hidle
  | sendDatagramsOverTcp => exact (Entry.sendDatagramsOverTcp_minor e).idle hidle
  | udpActs path sess => exact (Entry.udpActs_minor e path sess).idle hidle

end Slots

namespace Book

/-- The peer is there and holds a slot. -/
def liveAt (b : Book) (k : PeerKey) : Bool := (b.peers.lookup k).any Peer.live

section Outcomes

variable (P : Primitives) {b : Book} {op : BookOp} {k : PeerKey} {x : Ctx} {e : Entry}

/-- An operation that says yes to no one gives a slot to no one: a session is
started for a peer that holds one. -/
theorem outcome_live (hstart : ∀ s ∈ b.started op, b.liveAt s.1 = true)
    (h : (b.outcome P op).2 = some (k, x, e)) (hlive : e.peer.live = true) :
    b.liveAt k = true ∨ drops op = true ∨
      ∃ x' a, op = .act k x' a ∧ x'.room = true := by
  cases op with
  | join t psk => cases h
  | setSelf t self => cases h
  | control up => cases h
  | act k' x' a =>
      obtain ⟨e', hcalled, he'⟩ := Option.map_eq_some_iff.mp h
      cases he'
      cases hroom : x.room with
      | true => exact Or.inr (Or.inr ⟨x, a, rfl, hroom⟩)
      | false =>
          left
          have hact : ∀ p : Peer, p.live = false →
              e = ({ peer := p } : Entry).act P (b.env k.1 x) a → False := by
            rintro p hidle rfl
            rw [@idle_act (b.env k.1 x) { peer := p } P hidle hroom a] at hlive
            cases hlive
          unfold called at hcalled
          split at hcalled
          · cases hcalled
          · split at hcalled
            · rename_i p hp
              rw [liveAt, hp]
              cases hidle : p.live with
              | true => exact hidle
              | false => exact (hact p hidle (Option.some.inj hcalled).symm).elim
            · split at hcalled
              · exact (hact { devId := k.2 } rfl (Option.some.inj hcalled).symm).elim
              · cases hcalled
  | joinRelay k' x' reach join =>
      left
      unfold outcome at h
      simp only at h
      split at h
      · cases h
      · rename_i p hp
        split at h
        · cases h
        · split at h
          · cases h
          · cases h
            rw [liveAt, hp]
            exact hlive
  | accept target now => cases h
  | drivePending i x' io io' random padding peerIo =>
      left
      unfold outcome at h
      simp only at h
      split at h
      · cases h
      · rename_i pc hpc
        split at h
        · cases h
        · rename_i hpclive
          split at h
          · rename_i pc' hdrive
            obtain ⟨p, hp, he⟩ := Option.map_eq_some_iff.mp h
            cases he
            apply hstart (pc'.key, pc'.attempt)
            simp only [started, hpc, if_neg hpclive, hdrive, Option.mem_def]
          · cases h
          · cases h
  | reap => cases h
  | disconnect k' x' reason sends => exact Or.inr (Or.inl rfl)
  | trim k' => cases h

/-- Where a session that is started comes from. -/
theorem started_cases {s : PeerKey × AttemptNonce} (h : b.started op = some s) :
    ∃ pc ∈ b.pending, ∃ pc', b.Placed pc pc' ∧ pc'.known = true ∧
      (b.attempts.lookup pc'.attempt).isSome = true ∧ s = (pc'.key, pc'.attempt) := by
  cases op with
  | drivePending i x io io' random padding peerIo =>
      unfold started at h
      simp only at h
      split at h
      · cases h
      · rename_i pc hpc
        split at h
        · cases h
        · split at h
          · rename_i pc' hdrive
            obtain ⟨hplaced, hknown⟩ := drivePending_placed hdrive
            obtain ⟨hknown, hsome⟩ := hknown rfl
            exact ⟨pc, List.mem_of_getElem? hpc, pc', hplaced, hknown, hsome,
              (Option.some.inj h).symm⟩
          · cases h
  | _ => cases h

end Outcomes

/-! ## Where the table leads

An entry of the table of attempts leads to a peer that is there and on it, or
was when its topic was left. -/

/-- What the table and the connections say while the peer with key `k` is taken
to be on attempt `a`: a nonce in the table is its peer's attempt, or one of `L`,
and every nonce has been adopted for the peer it leads to. -/
structure TracedAt (L : PeerKey → AttemptNonce → Prop) (adopted : List (AttemptNonce × PeerKey))
    (b : Book) (k : PeerKey) (a : Option AttemptNonce) : Prop where
  traced : ∀ n k', b.attempts.lookup n = some k' →
    Function.update b.attemptOf k a k' = some n ∨ L k' n
  listed : ∀ n k', b.attempts.lookup n = some k' → (n, k') ∈ adopted
  held : ∀ n, a = some n → (n, k) ∈ adopted
  waiting : ∀ pc ∈ b.pending, pc.known = true → (pc.attempt, pc.key) ∈ adopted

section Traces

variable {L : PeerKey → AttemptNonce → Prop} {adopted : List (AttemptNonce × PeerKey)} {b : Book}
  {k : PeerKey} {x : Ctx} {a a' : Option AttemptNonce} {n : AttemptNonce}

theorem TracedAt.congr {b' : Book} (h : TracedAt L adopted b k a) (ht : b'.attempts = b.attempts)
    (hp : b'.peers = b.peers) (hpd : b'.pending = b.pending) : TracedAt L adopted b' k a := by
  have hof : b'.attemptOf = b.attemptOf := by
    funext k'
    rw [attemptOf, attemptOf, hp]
  refine ⟨?_, ?_, h.held, ?_⟩
  · rw [ht, hof]
    exact h.traced
  · rw [ht]
    exact h.listed
  · rw [hpd]
    exact h.waiting

theorem TracedAt.grow {more : List (AttemptNonce × PeerKey)} (h : TracedAt L adopted b k a) :
    TracedAt L (adopted ++ more) b k a where
  traced := h.traced
  listed n k' hn := List.mem_append_left _ (h.listed n k' hn)
  held n hn := List.mem_append_left _ (h.held n hn)
  waiting pc hpc hknown := List.mem_append_left _ (h.waiting pc hpc hknown)

theorem TracedAt.erase (h : TracedAt L adopted b k (some n)) :
    TracedAt L adopted (b.effect x k (.erase n)) k none where
  traced m k' hm := by
    change (b.attempts.erase n).lookup m = some k' at hm
    rcases Decidable.em (m = n) with hmn | hmn
    · rw [hmn, AList.lookup_erase] at hm
      cases hm
    · rcases h.traced m k' (lookup_erase_some hm) with hof | hleft
      · left
        rcases Decidable.em (k' = k) with hk | hk
        · rw [hk, Function.update_self] at hof
          exact absurd (Option.some.inj hof).symm hmn
        · rw [Function.update_of_ne hk] at hof ⊢
          exact hof
      · exact Or.inr hleft
  listed m k' hm := h.listed m k' (lookup_erase_some hm)
  held m hm := by cases hm
  waiting := h.waiting

/-- A nonce is entered for a peer that is on no other. -/
theorem TracedAt.insert {pd : List PendingConn} (h : TracedAt L adopted b k none)
    (hmem : (n, k) ∈ adopted)
    (hpd : ∀ pc ∈ pd, pc.known = true → (pc.attempt, pc.key) ∈ adopted) :
    TracedAt L adopted { b with attempts := b.attempts.insert n k, pending := pd } k (some n) where
  traced m k' hm := by
    change (b.attempts.insert n k).lookup m = some k' at hm
    rcases Decidable.em (m = n) with hmn | hmn
    · rw [hmn, AList.lookup_insert] at hm
      cases hm
      rw [hmn, Function.update_self]
      exact Or.inl rfl
    · rw [AList.lookup_insert_ne hmn] at hm
      rcases h.traced m k' hm with hof | hleft
      · left
        rcases Decidable.em (k' = k) with hk | hk
        · rw [hk, Function.update_self] at hof
          cases hof
        · rw [Function.update_of_ne hk] at hof ⊢
          exact hof
      · exact Or.inr hleft
  listed m k' hm := by
    change (b.attempts.insert n k).lookup m = some k' at hm
    rcases Decidable.em (m = n) with hmn | hmn
    · rw [hmn, AList.lookup_insert] at hm
      cases hm
      rw [hmn]
      exact hmem
    · rw [AList.lookup_insert_ne hmn] at hm
      exact h.listed m k' hm
  held m hm := by
    cases hm
    exact hmem
  waiting := hpd

theorem TracedAt.adopt (h : TracedAt L adopted b k a) (hmem : (n, k) ∈ adopted) :
    TracedAt L adopted (b.effect x k (.adopt a n)) k (some n) := by
  cases a with
  | none => exact h.insert hmem h.waiting
  | some old =>
      have herased : TracedAt L adopted (b.effect x k (.erase old)) k none := h.erase
      refine herased.insert hmem ?_
      intro pc hpc hknown
      obtain ⟨pc₀, hpc₀, rfl⟩ := List.mem_map.mp hpc
      rcases @retag_cases k old n pc₀ with heq | ⟨hkey, heq⟩
      · rw [heq] at hknown ⊢
        exact h.waiting pc₀ hpc₀ hknown
      · rw [heq]
        change (n, pc₀.key) ∈ adopted
        rw [hkey]
        exact hmem

theorem TracedAt.dial (h : TracedAt L adopted b k (some n)) (cands : List Candidate) :
    TracedAt L adopted (b.effect x k (.dial n cands)) k (some n) := by
  change TracedAt L adopted (cands.foldl (Book.dialOne x k n) b) k (some n)
  induction cands generalizing b with
  | nil => exact h
  | cons c cands ih =>
      apply ih
      obtain ⟨hattempts, hpeers, -⟩ := @dialOne_attempts b k x n c
      have hof : (b.dialOne x k n c).attemptOf = b.attemptOf := by
        funext k'
        rw [attemptOf, attemptOf, hpeers]
      refine ⟨?_, ?_, h.held, ?_⟩
      · rw [hattempts, hof]
        exact h.traced
      · rw [hattempts]
        exact h.listed
      · intro pc hpc hknown
        rcases mem_dialOne hpc with hold | hnew
        · exact h.waiting pc hold hknown
        · rw [hnew.1, hnew.2]
          exact h.held n rfl

/-- Effects that track the attempt of a peer keep the traces. -/
theorem TracedAt.tracks {Q : Option AttemptNonce → AttemptNonce → Prop} {fs : List Effect}
    (ht : Tracks Q a fs a') (h : TracedAt L adopted b k a)
    (hadopted : ∀ old n, Effect.adopt old n ∈ fs → (n, k) ∈ adopted) :
    TracedAt L adopted (run (effect x k) b fs) k a' := by
  induction ht generalizing b with
  | nil a => exact h
  | erase _ ih => exact ih h.erase fun old n hn => hadopted old n (List.mem_cons_of_mem _ hn)
  | adopt _ ih =>
      exact ih (h.adopt (hadopted _ _ List.mem_cons_self)) fun old n hn =>
        hadopted old n (List.mem_cons_of_mem _ hn)
  | connect _ ih => exact ih h fun old n hn => hadopted old n (List.mem_cons_of_mem _ hn)
  | dial _ ih => exact ih (h.dial _) fun old n hn => hadopted old n (List.mem_cons_of_mem _ hn)
  | relayAlloc _ ih => exact ih h fun old n hn => hadopted old n (List.mem_cons_of_mem _ hn)
  | @established a _ n _ _ _ ih =>
      rw [run_cons, run_append]
      have hlogged : TracedAt L adopted (b.effect x k (.established n)) k a := h.congr rfl rfl rfl
      refine ih ?_ fun old m hm =>
        hadopted old m (List.mem_cons_of_mem _ (List.mem_append_right _ hm))
      cases a with
      | none => exact hlogged
      | some old => exact @TracedAt.erase L adopted _ k x old hlogged

end Traces

/-! ## Topics of peers

Peers are made under topics that are in the map. -/

section Topics

variable (P : Primitives) {b : Book} {op : BookOp} {k : PeerKey} {x : Ctx} {e : Entry}

theorem dialOne_topics (n : AttemptNonce) (c : Candidate) :
    (b.dialOne x k n c).topics = b.topics := by
  unfold Book.dialOne
  repeat' split
  all_goals rfl

theorem run_effect_topics (b : Book) (fs : List Effect) :
    (run (effect x k) b fs).topics = b.topics := by
  refine run_invariant (I := fun b' : Book => b'.topics = b.topics) ?_ rfl fs
  intro b' f hb'
  cases f with
  | adopt old n => cases old <;> exact hb'
  | dial n cands =>
      refine run_invariant (I := fun b' : Book => b'.topics = b.topics) ?_ hb' cands
      intro b'' c hb''
      rw [dialOne_topics, hb'']
  | _ => exact hb'

/-- No operation on a peer or a connection takes a topic out of the map. -/
theorem outcome_topics {t : TopicId} (h : (b.topics.lookup t).isSome = true) :
    ((b.outcome P op).1.topics.lookup t).isSome = true := by
  have hinsert : ∀ t' ti, ((b.topics.insert t' ti).lookup t).isSome = true := by
    intro t' ti
    rcases Decidable.em (t = t') with rfl | hne
    · rw [AList.lookup_insert]
      rfl
    · rw [AList.lookup_insert_ne hne]
      exact h
  cases op with
  | join t' psk =>
      unfold outcome
      simp only
      split
      · exact h
      · exact hinsert _ _
  | setSelf t' self =>
      unfold outcome
      simp only
      split
      · exact h
      · exact hinsert _ _
  | joinRelay k x reach join =>
      unfold outcome
      simp only
      split
      · exact h
      · split
        · exact h
        · split
          · exact h
          · simp only
            split <;> exact h
  | drivePending i x io io' random padding peerIo =>
      unfold outcome
      simp only
      split
      · exact h
      · split
        · exact h
        · split <;> exact h
  | trim k =>
      unfold outcome
      simp only
      split <;> exact h
  | _ => exact h

/-- Every peer is of a topic that has been joined. -/
def Housed (b : Book) : Prop :=
  ∀ k p, b.peers.lookup k = some p → (b.topics.lookup k.1).isSome = true

/-- The peer an operation works on is of a topic that has been joined. -/
theorem outcome_housed (hhoused : b.Housed) (h : (b.outcome P op).2 = some (k, x, e)) :
    (b.topics.lookup k.1).isSome = true := by
  cases op with
  | act k' x' a =>
      obtain ⟨e', hcalled, he'⟩ := Option.map_eq_some_iff.mp h
      cases he'
      unfold called at hcalled
      split at hcalled
      · cases hcalled
      · rename_i hjoined
        simpa [Option.isSome_iff_ne_none] using hjoined
  | joinRelay k' x' reach join =>
      unfold outcome at h
      simp only at h
      split at h
      · cases h
      · rename_i p hp
        split at h
        · cases h
        · split at h
          · cases h
          · cases h
            exact hhoused _ p hp
  | drivePending i x' io io' random padding peerIo =>
      unfold outcome at h
      simp only at h
      split at h
      · cases h
      · split at h
        · cases h
        · split at h
          · obtain ⟨p, hp, he⟩ := Option.map_eq_some_iff.mp h
            cases he
            exact hhoused _ p hp
          · cases h
          · cases h
  | disconnect k' x' reason sends =>
      obtain ⟨p, hp, he⟩ := Option.map_eq_some_iff.mp h
      cases he
      exact hhoused _ p hp
  | join t psk => cases h
  | setSelf t self => cases h
  | control up => cases h
  | accept target now => cases h
  | reap => cases h
  | trim k' => cases h

theorem Housed.step (h : b.Housed) : (b.step P op).Housed := by
  rcases step_cases P b op with ⟨-, heq⟩ | ⟨k, x, e, hout, heq⟩
  · rw [heq]
    intro k p hp
    exact outcome_topics P (h k p ((outcome_peers P b op k).2 p hp))
  · intro k' p hp
    have htopics : (b.step P op).topics = (b.outcome P op).1.topics := by
      rw [heq]
      exact run_effect_topics _ _
    rw [htopics]
    apply outcome_topics P
    rw [lookup_step P heq k'] at hp
    split at hp
    · rename_i hk
      rw [hk]
      exact outcome_housed P h hout
    · exact h k' p ((outcome_peers P b op k').2 p hp)

end Topics

/-! ## Slots through a step

How many peers take a slot, before a step and behind it. -/

section Counts

variable (P : Primitives) {b : Book} {op : BookOp}

/-- An entry that is written, or written and erased, is one more of those `q`
selects at most. -/
theorem tally_commit (ps : AList fun _ : PeerKey => Peer) (k : PeerKey) (p : Peer) (drop : Bool)
    (q : PeerKey → Peer → Bool) :
    tally (if drop then (ps.insert k p).erase k else ps.insert k p) q ≤
      tally ps q + if q k p && !drop && !(ps.lookup k).any (q k) then 1 else 0 := by
  have herase := tally_erase_add ps k q
  have hinsert := tally_insert ps k p q
  cases drop with
  | true =>
      have hgone := tally_erase_add (ps.insert k p) k q
      rw [AList.lookup_insert, Option.any_some] at hgone
      simp only [if_true, Bool.not_true, Bool.and_false, Bool.false_and, Bool.false_eq_true,
        if_false]
      omega
  | false =>
      simp only [Bool.false_eq_true, if_false, Bool.not_false, Bool.and_true]
      rw [hinsert]
      cases hq : q k p <;> cases ho : (ps.lookup k).any (q k) <;> simp [ho] at herase ⊢ <;> omega

/-- The peers before the one an operation works on is written. -/
theorem tally_outcome_le (q : PeerKey → Peer → Bool) :
    tally (b.outcome P op).1.peers q ≤ tally b.peers q := by
  rcases outcome_base P b op with ⟨_, _, _, h⟩ | ⟨k, _, _, _, _, h⟩
  · rw [h]
  · rw [h]
    have herase := tally_erase_add b.peers k q
    change tally (b.peers.erase k) q ≤ tally b.peers q
    omega

/-- A step takes one slot, of a peer for which there was room, or none. -/
theorem live_step (hstart : ∀ s ∈ b.started op, b.liveAt s.1 = true) :
    (∀ c : PeerKey → Bool, tally (b.step P op).peers (fun k p => p.live && c k) ≤
        tally b.peers fun k p => p.live && c k) ∨
      ∃ k x a, op = .act k x a ∧ x.room = true ∧ ∀ c : PeerKey → Bool,
        tally (b.step P op).peers (fun k p => p.live && c k) ≤
          tally b.peers (fun k p => p.live && c k) + if c k then 1 else 0 := by
  rcases step_cases P b op with ⟨-, heq⟩ | ⟨k, x, e, hout, heq⟩
  · rw [heq]
    exact Or.inl fun c => tally_outcome_le P _
  · have hpeers := outcome_same_peers P hout
    have hcommit : ∀ c : PeerKey → Bool, tally (b.step P op).peers (fun k p => p.live && c k) ≤
        tally b.peers (fun k p => p.live && c k) +
          if e.peer.live && c k && !drops op && !(b.peers.lookup k).any fun p => p.live && c k
          then 1 else 0 := by
      intro c
      rw [heq, hpeers]
      exact tally_commit b.peers k e.peer (drops op) fun k p => p.live && c k
    rcases Decidable.em (e.peer.live = true ∧ drops op = false ∧ b.liveAt k = false) with
      ⟨hlive, hkept, hidle⟩ | hold
    · rcases outcome_live P hstart hout hlive with hheld | hdrop | ⟨x', a, rfl, hroom⟩
      · rw [hidle] at hheld
        cases hheld
      · rw [hkept] at hdrop
        cases hdrop
      · refine Or.inr ⟨k, x', a, rfl, hroom, fun c => Nat.le_trans (hcommit c) ?_⟩
        apply Nat.add_le_add_left
        cases hc : c k with
        | false => simp
        | true =>
            rw [if_pos rfl]
            split <;> decide
    · left
      intro c
      have hnone : (e.peer.live && c k && !drops op &&
          !(b.peers.lookup k).any fun p => p.live && c k) = false := by
        rw [← Bool.not_eq_true]
        intro htrue
        simp only [Bool.and_eq_true, Bool.not_eq_true'] at htrue
        obtain ⟨⟨⟨hlive, hc⟩, hkept⟩, hany⟩ := htrue
        apply hold
        refine ⟨hlive, hkept, ?_⟩
        rw [liveAt, ← hany, hc]
        simp only [Bool.and_true]
      have hle := hcommit c
      rw [hnone, if_neg Bool.false_ne_true, Nat.add_zero] at hle
      exact hle

/-- Every peer is counted in one topic. -/
theorem totalPeerCount_eq (h : b.Housed) : b.totalPeerCount = tally b.peers fun _ p => p.live :=
  sum_countP_fiber (fun kp : Σ _ : PeerKey, Peer => kp.1.1) (fun kp => kp.2.live)
    b.topics.keys_nodup fun kp hkp _ =>
      AList.lookup_isSome.mp (h kp.1 kp.2 (AList.mem_lookup_iff.mpr hkp))

/-- Neither limit is passed. -/
structure Within (l : PeerLimits) (b : Book) : Prop where
  topic : ∀ t, b.livePeerCount t ≤ l.maxPeers t
  total : b.totalPeerCount ≤ l.maxTotalPeers

theorem Within.mono {l : PeerLimits} {b' : Book} (h : Within l b) (hhoused : b.Housed)
    (hhoused' : b'.Housed) (hle : ∀ c : PeerKey → Bool,
      tally b'.peers (fun k p => p.live && c k) ≤ tally b.peers fun k p => p.live && c k) :
    Within l b' := by
  refine ⟨fun t => Nat.le_trans (hle fun k => decide (k.1 = t)) (h.topic t), ?_⟩
  have hall := hle fun _ => true
  simp only [Bool.and_true] at hall
  rw [totalPeerCount_eq hhoused']
  exact Nat.le_trans hall (totalPeerCount_eq hhoused ▸ h.total)

theorem Within.step {l : PeerLimits} (h : Within l b) (hhoused : b.Housed)
    (hstart : ∀ s ∈ b.started (b.withRoom l op), b.liveAt s.1 = true) :
    Within l (b.step P (b.withRoom l op)) := by
  have hhoused' : (b.step P (b.withRoom l op)).Housed := hhoused.step P
  rcases live_step P hstart with hle | ⟨k, x, a, hop, hroom, hle⟩
  · exact h.mono hhoused hhoused' hle
  · have hasked : b.hasRoom l k.1 = true := by
      cases op with
      | act k' x' a' =>
          cases hop
          exact hroom
      | _ => cases hop
    obtain ⟨htopic, htotal⟩ := (Bool.and_eq_true _ _).mp hasked
    refine ⟨fun t => ?_, ?_⟩
    · have hcount := hle fun k => decide (k.1 = t)
      rcases Decidable.em (k.1 = t) with rfl | hne
      · rw [if_pos (decide_eq_true rfl)] at hcount
        exact Nat.le_trans hcount (of_decide_eq_true htopic)
      · rw [if_neg (by simpa using hne)] at hcount
        exact Nat.le_trans hcount (h.topic t)
    · have hcount := hle fun _ => true
      simp only [Bool.and_true, if_true] at hcount
      rw [totalPeerCount_eq hhoused']
      rw [totalPeerCount_eq hhoused] at htotal
      exact Nat.le_trans hcount (of_decide_eq_true htotal)

end Counts

end Book

/-! ## Topics that are left

The peers of a topic that is being left take no slot, and its attempts may find
a peer of the topic joined again. -/

namespace Roster

/-- What holds of the tables in every run. -/
structure Sound (r : Roster) : Prop where
  housed : r.book.Housed
  resting : r.book.Resting fun _ _ => True
  traced : ∀ k, Book.TracedAt r.LeftUnder r.adopted r.book k (r.book.attemptOf k)

section Steps

variable (P : Primitives) (l : PeerLimits) {r : Roster}

theorem sound_fresh (cfg : NodeConfig) : Sound (fresh cfg) := by
  refine ⟨?_, ?_, fun k => ⟨?_, ?_, ?_, ?_⟩⟩
  · intro k p hp
    cases hp
  · intro k p hp
    cases hp
  · intro n k' hn
    cases hn
  · intro n k' hn
    cases hn
  · intro n hn
    cases hn
  · intro pc hpc
    cases hpc

/-- Before a peer is worked on, connections are driven, found in the table or
made for a relay. -/
theorem traced_outcome {L : PeerKey → AttemptNonce → Prop}
    {adopted : List (AttemptNonce × PeerKey)} {b : Book} (op : BookOp)
    (h : ∀ k, b.TracedAt L adopted k (b.attemptOf k)) (k : PeerKey) :
    (b.outcome P op).1.TracedAt L adopted k (b.attemptOf k) := by
  obtain ⟨hattempts, -⟩ := Book.outcome_attempts P b op
  have hof : (b.outcome P op).1.attemptOf = b.attemptOf :=
    funext fun k => (Book.outcome_peers P b op k).1
  refine ⟨?_, ?_, (h k).held, ?_⟩
  · rw [hattempts, hof]
    exact (h k).traced
  · rw [hattempts]
    exact (h k).listed
  · intro pc hpc hknown
    rcases Book.outcome_pending P hpc hknown with ⟨pc₀, hmem, hsame, -⟩ | hlookup | hattempt
    · rw [hsame.attempt, hsame.key]
      exact (h k).waiting pc₀ hmem (hsame.known.symm.trans hknown)
    · exact (h k).listed _ _ hlookup
    · exact (h pc.key).held _ hattempt

theorem traced_step {L : PeerKey → AttemptNonce → Prop}
    {adopted : List (AttemptNonce × PeerKey)} {b : Book} (op : BookOp)
    (hresting : b.Resting fun _ _ => True)
    (h : ∀ k, b.TracedAt L adopted k (b.attemptOf k)) (k : PeerKey) :
    (b.step P op).TracedAt L (adopted ++ b.adoptions P op) k ((b.step P op).attemptOf k) := by
  have hof : (b.outcome P op).1.attemptOf = b.attemptOf :=
    funext fun k => (Book.outcome_peers P b op k).1
  have hgrow : ∀ k, (b.outcome P op).1.TracedAt L (adopted ++ b.adoptions P op) k
      (b.attemptOf k) := fun k => (traced_outcome P op h k).grow
  rcases Book.step_cases P b op with ⟨-, heq⟩ | ⟨k₀, x, e, hout, heq⟩
  · rw [heq, hof]
    exact hgrow k
  · have hstart : b.StartsUnder (fun _ _ => True) op := by
      cases op with
      | drivePending => exact fun _ _ _ _ _ => trivial
      | _ => trivial
    obtain ⟨ht, hend⟩ := Book.outcome_tracks P hresting hstart hout
    have hadopted : ∀ old n, Effect.adopt old n ∈ e.effects →
        (n, k₀) ∈ adopted ++ b.adoptions P op := by
      intro old n hn
      refine List.mem_append_right _ ?_
      unfold Book.adoptions
      rw [hout]
      exact List.mem_filterMap.mpr ⟨_, hn, rfl⟩
    have hafter := @Book.TracedAt.tracks L (adopted ++ b.adoptions P op) _ k₀ x _ _ _ _ ht
      (hgrow k₀) hadopted
    have hdrop : Book.drops op = true → e.peer.attempt = none := by
      intro hd
      rw [if_pos hd] at hend
      exact hend
    have hof' := Book.attemptOf_step P heq hdrop
    refine ⟨?_, ?_, ?_, ?_⟩
    · rw [Function.update_eq_self, hof', heq]
      exact hafter.traced
    · rw [heq]
      exact hafter.listed
    · rw [hof']
      intro n hn
      rcases Decidable.em (k = k₀) with hk | hk
      · rw [hk, Function.update_self] at hn
        rw [hk]
        exact hafter.held n hn
      · rw [Function.update_of_ne hk, Book.attemptOf, Book.run_effect_peers] at hn
        have hn' : (b.outcome P op).1.attemptOf k = some n := hn
        rw [hof] at hn'
        exact (hgrow k).held n hn'
    · rw [heq]
      exact hafter.waiting

/-- The attempts of the peers of a topic that is left are the left topic's. -/
theorem Sound.leave (h : Sound r) (t : TopicId) : Sound (r.step P l (.leave t)) := by
  rcases Decidable.em ((r.book.topics.lookup t).isNone = true) with hnone | hjoined
  · have heq : r.step P l (.leave t) = r := if_pos hnone
    rw [heq]
    exact h
  · have heq := leave_eq P l hjoined
    have hof : ∀ k, (r.step P l (.leave t)).book.attemptOf k =
        if k.1 = t then none else r.book.attemptOf k := congrFun (attemptOf_leave P l hjoined)
    -- a peer that is still there has been there before, and its topic is not the one left
    have hkept : ∀ k p, (r.step P l (.leave t)).book.peers.lookup k = some p →
        k.1 ≠ t ∧ r.book.peers.lookup k = some p := by
      intro k p hp
      rw [heq] at hp
      simp only [lookup_part] at hp
      split at hp
      · rename_i hne
        exact ⟨of_decide_eq_true hne, hp⟩
      · cases hp
    refine ⟨?_, ?_, fun k => ⟨?_, ?_, ?_, ?_⟩⟩
    · intro k p hp
      obtain ⟨hne, hold⟩ := hkept k p hp
      rw [heq]
      change ((r.book.topics.erase t).lookup k.1).isSome = true
      rw [AList.lookup_erase_ne hne]
      exact h.housed k p hold
    · exact fun k p hp => h.resting k p (hkept k p hp).2
    · intro n k' hn
      rw [heq] at hn
      have hwas := (h.traced k).traced n k' hn
      rw [Function.update_eq_self] at hwas ⊢
      rw [leftUnder_leave P l hjoined, hof]
      rcases hwas with hattempt | hleft
      · rcases Decidable.em (k'.1 = t) with hk | hk
        · exact Or.inr (Or.inr ⟨hk, hattempt⟩)
        · left
          rw [if_neg hk]
          exact hattempt
      · exact Or.inr (Or.inl hleft)
    · rw [heq]
      exact (h.traced k).listed
    · intro n hn
      rw [hof] at hn
      rw [heq]
      split at hn
      · cases hn
      · exact (h.traced k).held n hn
    · rw [heq]
      exact (h.traced k).waiting

theorem Sound.disconnectAll (h : Sound r) (i : Nat) (x : Ctx) (reason : UInt16)
    (sends : PeerKey → List SendResult) : Sound (r.step P l (.disconnectAll i x reason sends)) := by
  cases hps : r.leaving[i]? with
  | none =>
      unfold step
      simp only [hps]
      exact h
  | some ps =>
      obtain ⟨as, heq, has⟩ := disconnectAll_eq P l hps x reason sends
      rw [heq]
      refine ⟨h.housed, h.resting, fun k => ⟨?_, ?_, (h.traced k).held, (h.traced k).waiting⟩⟩
      · intro n k' hn
        obtain ⟨hlookup, hnone⟩ := (has n k').mp hn
        rcases (h.traced k).traced n k' hlookup with hof | ⟨ps', hps', hleft⟩
        · exact Or.inl hof
        · right
          obtain ⟨j, hj⟩ := List.mem_iff_getElem?.mp hps'
          rcases Decidable.em (j = i) with rfl | hne
          · -- the peer is one of those just dismissed
            rw [hps] at hj
            cases hj
            exact absurd hleft (hnone k')
          · exact ⟨ps', List.mem_eraseIdx_iff_getElem?.mpr ⟨j, hne, hj⟩, hleft⟩
      · intro n k' hn
        exact (h.traced k).listed n k' ((has n k').mp hn).1

theorem Sound.step (h : Sound r) (op : RosterOp) : Sound (r.step P l op) := by
  cases op with
  | book op =>
      have hstart : r.book.StartsUnder (fun _ _ => True) (r.book.withRoom l op) := by
        cases op with
        | drivePending => exact fun _ _ _ _ _ => trivial
        | _ => trivial
      exact ⟨h.housed.step P, h.resting.step P hstart, traced_step P _ h.resting h.traced⟩
  | leave t => exact h.leave P l t
  | disconnectAll i x reason sends => exact h.disconnectAll P l i x reason sends

/-- A session is started for a peer that holds its attempt. -/
theorem started_live (h : Sound r) (hnonces : NoncesApart r.adopted) {op : BookOp}
    (hclear : r.StartsClear (.book op)) :
    ∀ s ∈ r.book.started op, r.book.liveAt s.1 = true := by
  intro s hs
  have hfree := hclear s hs
  obtain ⟨pc, hpc, pc', hplaced, hknown, hsome, rfl⟩ := Book.started_cases hs
  obtain ⟨k, hk⟩ := Option.isSome_iff_exists.mp hsome
  -- the table leads to the peer the connection is for, since the nonce is one peer's
  have hkey : k = pc'.key := by
    rcases hplaced with hsame | hlookup
    · have hwaits := (h.traced k).waiting pc hpc (hsame.known ▸ hknown)
      rw [← hsame.attempt, ← hsame.key] at hwaits
      exact hnonces _ ((h.traced k).listed _ _ hk) _ hwaits rfl
    · exact Option.some.inj (hk.symm.trans hlookup)
  rw [hkey] at hk
  rcases (h.traced pc'.key).traced _ _ hk with hof | hleft
  · rw [Function.update_eq_self] at hof
    obtain ⟨p, hp, hpn⟩ := Option.bind_eq_some_iff.mp hof
    rw [Book.liveAt, hp, Option.any_some, Peer.live, hpn]
    exact Bool.or_true _
  · exact absurd hleft hfree

theorem within_step (h : Sound r) (hnonces : NoncesApart r.adopted) {op : RosterOp}
    (hclear : r.StartsClear op) (hwithin : r.book.Within l) :
    (r.step P l op).book.Within l := by
  cases op with
  | book op =>
      apply hwithin.step P h.housed
      rw [started_withRoom]
      exact started_live h hnonces hclear
  | leave t =>
      have hhoused := (h.leave P l t).housed
      unfold step at hhoused ⊢
      simp only at hhoused ⊢
      split
      · exact hwithin
      · rename_i hjoined
        rw [if_neg hjoined] at hhoused
        refine hwithin.mono h.housed hhoused fun c => ?_
        exact tally_part_le r.book.peers (fun k => decide (k.1 ≠ t)) fun k p => p.live && c k
  | disconnectAll i x reason sends =>
      cases hps : r.leaving[i]? with
      | none =>
          unfold step
          simp only [hps]
          exact hwithin
      | some ps =>
          obtain ⟨as, heq, -⟩ := disconnectAll_eq P l hps x reason sends
          rw [heq]
          exact ⟨hwithin.topic, hwithin.total⟩

/-- Nonces that have been adopted stay on the list. -/
theorem adopted_run (r : Roster) (ops : List RosterOp) :
    ∃ more, (run (Roster.step P l) r ops).adopted = r.adopted ++ more := by
  induction ops generalizing r with
  | nil => exact ⟨[], (List.append_nil _).symm⟩
  | cons op ops ih =>
      obtain ⟨more, hmore⟩ := ih (r.step P l op)
      have hstep : ∃ new, (r.step P l op).adopted = r.adopted ++ new := by
        cases op with
        | book op => exact ⟨_, rfl⟩
        | leave t =>
            refine ⟨[], ?_⟩
            unfold Roster.step
            simp only [List.append_nil]
            split <;> rfl
        | disconnectAll i x reason sends =>
            refine ⟨[], ?_⟩
            unfold Roster.step
            simp only [List.append_nil]
            split <;> rfl
      obtain ⟨new, hnew⟩ := hstep
      refine ⟨new ++ more, ?_⟩
      rw [run_cons, hmore, hnew, List.append_assoc]

theorem within_run (h : Sound r) (hwithin : r.book.Within l) {ops : List RosterOp}
    (hnonces : NoncesApart (run (Roster.step P l) r ops).adopted)
    (hclear : AllSteps StartsClear (Roster.step P l) r ops) :
    (run (Roster.step P l) r ops).book.Within l := by
  induction ops generalizing r with
  | nil => exact hwithin
  | cons op ops ih =>
      have hnow : NoncesApart r.adopted := by
        obtain ⟨more, hmore⟩ := adopted_run P l r (op :: ops)
        intro c hc c' hc'
        apply hnonces
        · rw [hmore]
          exact List.mem_append_left _ hc
        · rw [hmore]
          exact List.mem_append_left _ hc'
      exact ih (h.step P l op) (within_step P l h hnow hclear.1 hwithin) hnonces hclear.2

end Steps

theorem within_fresh (l : PeerLimits) (cfg : NodeConfig) : (fresh cfg).book.Within l :=
  ⟨fun _ => Nat.zero_le _, Nat.zero_le _⟩

end Roster

/-- In every run in which no nonce is adopted for two peers and no session is
started under an attempt of a topic that is being left, no topic has more peers
with a session or an attempt than its limit, nor have all topics together. -/
theorem peer_limits_hold (P : Primitives) (l : PeerLimits) (cfg : NodeConfig)
    (ops : List RosterOp)
    (hnonces : Roster.NoncesApart (run (Roster.step P l) (Roster.fresh cfg) ops).adopted)
    (hclear : AllSteps Roster.StartsClear (Roster.step P l) (Roster.fresh cfg) ops) :
    (∀ t, (run (Roster.step P l) (Roster.fresh cfg) ops).book.livePeerCount t ≤ l.maxPeers t) ∧
      (run (Roster.step P l) (Roster.fresh cfg) ops).book.totalPeerCount ≤ l.maxTotalPeers := by
  have hwithin := Roster.within_run P l (Roster.sound_fresh cfg) (Roster.within_fresh l cfg)
    hnonces hclear
  exact ⟨hwithin.topic, hwithin.total⟩

namespace Roster

instance NoncesApart.decidable (adopted : List (AttemptNonce × PeerKey)) :
    Decidable (NoncesApart adopted) :=
  inferInstanceAs (Decidable (∀ c ∈ adopted, ∀ c' ∈ adopted, c.1 = c'.1 → c.2 = c'.2))

/-- One peer, and no more. -/
def onePeer : PeerLimits where
  maxPeers _ := 1
  maxTotalPeers := 1

/-- A time, with the nonce that `random_bytes` makes then. -/
def sampleMoment (now : Instant) (n : UInt8) : Ctx where
  now := now
  nonce := Vector.replicate 16 n

/-- A topic is joined and published under a small device, and the server is
there. -/
def sampleJoin : List RosterOp :=
  [.book (.join Book.sampleTopic none),
    .book (.setSelf Book.sampleTopic (some (Vector.replicate 16 1))), .book (.control true)]

/-- A peer is found, and connected to under a new nonce. -/
def sampleConnect (d : UInt8) (now : Instant) (n : UInt8) : List RosterOp :=
  [.book (.act (Book.sampleKey d) (sampleMoment now n)
      (.learn [{ kind := .srflx, ep := { port := 7 } }])),
    .book (.act (Book.sampleKey d) (sampleMoment now n) .connect)]

/-- The first connection comes up. -/
def sampleDrive (now : Instant) : RosterOp :=
  .book (.drivePending 0 (sampleMoment now 0) {} {} (Vector.replicate 32 7)
    (Vector.replicate 16 0) {})

/-- Two peers are tried, of which there is room for one; its connection comes
up, and the topic is left, joined again and the other peer connected to. -/
def sampleVisit : List RosterOp :=
  sampleJoin ++ sampleConnect 3 1 5 ++ sampleConnect 4 2 6 ++ [sampleDrive 3, .leave Book.sampleTopic,
    .disconnectAll 0 (sampleMoment 4 0) kGoingAway fun _ => []] ++ sampleJoin ++ sampleConnect 4 5 7

/-- The topic is left, and joined again before its peers are disconnected.  The
connection to the first peer comes up when the one slot has gone to the second. -/
def sampleRejoin : List RosterOp :=
  sampleJoin ++ sampleConnect 3 1 5 ++ [.leave Book.sampleTopic] ++ sampleJoin ++
    sampleConnect 4 2 6 ++ sampleConnect 3 3 7 ++ [sampleDrive 4]

end Roster

theorem peer_limits_hold_sample :
    Roster.NoncesApart (run (Roster.step Primitives.checksum Roster.onePeer) (Roster.fresh {})
        Roster.sampleVisit).adopted ∧
      AllSteps Roster.StartsClear (Roster.step Primitives.checksum Roster.onePeer)
        (Roster.fresh {}) Roster.sampleVisit ∧
      (run (Roster.step Primitives.checksum Roster.onePeer) (Roster.fresh {})
        Roster.sampleVisit).book.totalPeerCount ≤ 1 := by
  have hnonces : Roster.NoncesApart (run (Roster.step Primitives.checksum Roster.onePeer)
      (Roster.fresh {}) Roster.sampleVisit).adopted := by
    decide +kernel
  have hclear : AllSteps Roster.StartsClear (Roster.step Primitives.checksum Roster.onePeer)
      (Roster.fresh {}) Roster.sampleVisit := by
    decide +kernel
  exact ⟨hnonces, hclear,
    (peer_limits_hold Primitives.checksum Roster.onePeer {} _ hnonces hclear).2⟩

/-- All nonces are different, and two peers hold slots where one may. -/
theorem rejoined_topic_exceeds_limits :
    ((run (Roster.step Primitives.checksum Roster.onePeer) (Roster.fresh {})
        Roster.sampleRejoin).adopted.map Prod.fst).Nodup ∧
      ¬ ((∀ t, (run (Roster.step Primitives.checksum Roster.onePeer) (Roster.fresh {})
          Roster.sampleRejoin).book.livePeerCount t ≤ Roster.onePeer.maxPeers t) ∧
        (run (Roster.step Primitives.checksum Roster.onePeer) (Roster.fresh {})
          Roster.sampleRejoin).book.totalPeerCount ≤ Roster.onePeer.maxTotalPeers) := by
  have hcount : (run (Roster.step Primitives.checksum Roster.onePeer) (Roster.fresh {})
      Roster.sampleRejoin).book.livePeerCount Book.sampleTopic = 2 := by
    decide +kernel
  refine ⟨by decide +kernel, fun hwithin => ?_⟩
  have hle := hwithin.1 Book.sampleTopic
  rw [hcount] at hle
  exact absurd hle (Nat.not_succ_le_self 1)

end UConnect.Node
