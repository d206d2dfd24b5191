/-
  Path/Alike.lean --- sessions that nobody can tell apart.

  Source: src/path/punch.cpp.

  Two sessions are alike from a time on if they differ in the transaction
  numbers of their headers, and in send times that no later call reads: those of
  pairs that send no more, or that are due in both, or of a punch that is not
  probing or out of time.  Every call keeps sessions alike, so they send and
  report the same.
-/
import Mathlib.Data.List.Forall2
import UConnect.Path.GivingUp

set_option autoImplicit false

namespace UConnect.Path

open UConnect.Foundation UConnect.Crypto UConnect.Wire

/-! ## Packets without their numbers

The transaction number stands in the header alone, so two packets that differ in
it are the same once it is masked. -/

/-- A packet without the transaction number of its header. -/
def Outgoing.masked (o : Outgoing) : Outgoing :=
  { o with data := o.data.take 4 ++ o.data.drop 8 }

theorem packet_eq (type : MsgType) (txnId : Nat) {body : Writer → Writer} {bs : Bytes}
    (hbody : ∀ w, Wrote w (body w) bs) (hfits : Header.kSize + bs.length ≤ kMaxDatagram) :
    packet type txnId body = Header.image { type := type, txnId := txnId } ++ bs := by
  have hwrote := (Header.wrote { type := type, txnId := txnId }
    { capacity := kMaxDatagram }).trans (hbody _)
  have hok := hwrote.room rfl (by simpa using hfits)
  obtain ⟨-, hwritten, -, -⟩ := hwrote.good hok
  exact hwritten

/-- The number is all that tells packets with one body apart. -/
theorem masked_packet (dest : Endpoint) (type : MsgType) (n m : Nat) {body : Writer → Writer}
    {bs : Bytes} (hbody : ∀ w, Wrote w (body w) bs)
    (hfits : Header.kSize + bs.length ≤ kMaxDatagram) :
    Outgoing.masked { dest := dest, data := packet type n body } =
      Outgoing.masked { dest := dest, data := packet type m body } := by
  have hmask : ∀ k, (packet type k body).take 4 ++ (packet type k body).drop 8 =
      [type, kVersion, 0, 0] ++ bs := by
    intro k
    have hdrop : (beBytes 4 k ++ bs).drop 4 = bs :=
      List.drop_left' (length_beBytes 4 k)
    rw [packet_eq type k hbody hfits, Header.image, List.append_assoc]
    exact congrArg ([type, kVersion, 0, 0] ++ ·) hdrop
  unfold Outgoing.masked
  rw [hmask, hmask]

theorem masked_encodeProbe (dest : Endpoint) (txn : ProbeTxn) (tag : ProbeTag) (n m : Nat) :
    Outgoing.masked { dest := dest, data := encodeProbe txn tag n } =
      Outgoing.masked { dest := dest, data := encodeProbe txn tag m } := by
  refine @masked_packet dest .probe n m _ (txn.toList ++ tag.toList) (fun w => ?_) ?_
  · have hall := ((Wrote.refl w).array txn).array tag
    rwa [List.nil_append] at hall
  · simp [Header.kSize, kMaxDatagram]

theorem masked_encodeProbeOk (dest : Endpoint) (txn : ProbeTxn) (mapped : Endpoint)
    (tag : ProbeTag) (n m : Nat) :
    Outgoing.masked { dest := dest, data := encodeProbeOk txn mapped tag n } =
      Outgoing.masked { dest := dest, data := encodeProbeOk txn mapped tag m } := by
  refine @masked_packet dest .probeOk n m _ (txn.toList ++ mapped.image ++ tag.toList)
    (fun w => ?_) ?_
  · have hall := (((Wrote.refl w).array txn).endpoint mapped).array tag
    rwa [List.nil_append] at hall
  · have hle := length_endpoint_le mapped
    simp only [List.length_append, Vector.length_toList, Header.kSize, kMaxDatagram]
    omega

/-- The answer to a probe depends on the number in its header only. -/
theorem masked_answerProbe (P : Primitives) (src : Endpoint) (dgram : Bytes)
    (probeKey : Option SymKey) (n m : Nat) :
    (answerProbe P src dgram probeKey n).map Outgoing.masked =
      (answerProbe P src dgram probeKey m).map Outgoing.masked := by
  unfold answerProbe
  split
  · rfl
  · split
    · rfl
    · split
      · rfl
      · split
        · rfl
        · exact congrArg some (masked_encodeProbeOk src _ src _ n m)

namespace PunchSession

/-! ## Alike sessions

`Near` is of two pairs, `Twin` of two lists of them, `Alike` of two sessions at
a time.  All three only get weaker as time passes. -/

/-- No call from `t` on reads how the send times of these pairs differ. -/
inductive Unread (t : Instant) (s : PunchSession) (p p' : Pair) : Prop where
  | same (h : p'.nextSend = p.nextSend)
  | due (h : p.nextSend ≤ t) (h' : p'.nextSend ≤ t)
  | validated (h : p.validated = true)
  | exhausted (h : p.exhausted = true)
  | used (h : s.cfg.maxAttemptsPerPair ≤ p.attempts)
  | quiet (h : s.state ≠ .probing)
  | late (h : s.cfg.totalTimeout ≤ t - s.started)

/-- Pairs that differ in their send time at most, and nobody reads it. -/
def Near (t : Instant) (s : PunchSession) (p p' : Pair) : Prop :=
  p' = { p with nextSend := p'.nextSend } ∧ Unread t s p p'

/-- Sessions that differ in their pairs and header numbers at most. -/
structure Twin (s s' : PunchSession) : Prop where
  same : s' = { s with pairs := s'.pairs, out := s'.out, txnCounter := s'.txnCounter }
  out : s'.out.map Outgoing.masked = s.out.map Outgoing.masked

/-- Sessions that differ in header numbers and unread send times at most. -/
structure Alike (t : Instant) (s s' : PunchSession) : Prop extends Twin s s' where
  pairs : List.Forall₂ (Near t s) s.pairs s'.pairs

theorem Near.refl (t : Instant) (s : PunchSession) (p : Pair) : Near t s p p := ⟨rfl, .same rfl⟩

variable {P : Primitives} {s s' : PunchSession} {t now : Instant}

theorem Near.later {p p' : Pair} (h : Near t s p p') (hle : t ≤ now) : Near now s p p' := by
  refine ⟨h.1, ?_⟩
  cases h.2 with
  | same h => exact .same h
  | due h h' => exact .due (Int.le_trans h hle) (Int.le_trans h' hle)
  | validated h => exact .validated h
  | exhausted h => exact .exhausted h
  | used h => exact .used h
  | quiet h => exact .quiet h
  | late h => exact .late (Int.le_trans h (Int.sub_le_sub_right hle _))

theorem Alike.later (h : Alike t s s') (hle : t ≤ now) : Alike now s s' :=
  ⟨h.toTwin, h.pairs.imp fun _ _ hp => hp.later hle⟩

theorem Alike.refl (t : Instant) (s : PunchSession) : Alike t s s :=
  ⟨⟨rfl, rfl⟩, List.forall₂_same.mpr fun p _ => Near.refl t s p⟩

/-- What the near pairs have in common. -/
theorem known_of_near {ps ps' : List Pair} (h : List.Forall₂ (Near t s) ps ps') :
    ps'.map Pair.core = ps.map Pair.core := by
  induction h with
  | nil => rfl
  | cons hp _ ih =>
      rw [List.map_cons, List.map_cons, ih, hp.1]
      rfl

/-- Nearness reads the clock, the state and the limits of the session. -/
theorem Near.congr {p p' : Pair} (h : Near t s p p') {u : PunchSession} (hcfg : u.cfg = s.cfg)
    (hstarted : u.started = s.started) (hstate : u.state = s.state ∨ u.state ≠ .probing) :
    Near t u p p' := by
  refine ⟨h.1, ?_⟩
  cases h.2 with
  | same h => exact .same h
  | due h h' => exact .due h h'
  | validated h => exact .validated h
  | exhausted h => exact .exhausted h
  | used h => exact .used (hcfg ▸ h)
  | late h =>
      refine .late ?_
      rw [hcfg, hstarted]
      exact h
  | quiet h =>
      refine .quiet ?_
      rcases hstate with hstate | hstate
      · rwa [hstate]
      · exact hstate

/-! ## The loop of `on_timeout`

A pass over alike lists probes the same pairs, which is the one place where send
times are read. -/

/-- The loop body does the same with near pairs: as long as the punch is on, a
send time that differs is that of a pair it does not look at, or of one that is
due. -/
theorem visit_alike {u : PunchSession} (hcfg : u.cfg = s.cfg) (hprobing : u.state = .probing)
    (hearly : now - u.started < u.cfg.totalTimeout) (htwin : Twin s s') {p p' : Pair}
    (hnear : Near now u p p') :
    Twin (s.visit P p now).1 (s'.visit P p' now).1 ∧
      Near now u (s.visit P p now).2.1 (s'.visit P p' now).2.1 ∧
      (s'.visit P p' now).2.2 = (s.visit P p now).2.2 := by
  obtain ⟨hsame, hout⟩ := htwin
  obtain ⟨heq, hunread⟩ := hnear
  generalize p'.nextSend = n at heq
  subst heq
  have hcfg' : s'.cfg = s.cfg := by rw [hsame]
  unfold visit
  dsimp only
  rw [hcfg']
  by_cases hdone : (p.validated || p.exhausted) = true
  · rw [if_pos hdone, if_pos hdone]
    exact ⟨⟨hsame, hout⟩, ⟨rfl, hunread⟩, rfl⟩
  · rw [if_neg hdone, if_neg hdone]
    by_cases hused : (p.attempts : Int) ≥ s.cfg.maxAttemptsPerPair
    · rw [if_pos hused, if_pos hused]
      exact ⟨⟨hsame, hout⟩, ⟨rfl, .exhausted rfl⟩, rfl⟩
    · rw [if_neg hused, if_neg hused]
      have hdue : now ≥ n ↔ now ≥ p.nextSend := by
        cases hunread with
        | same h =>
            have h : n = p.nextSend := h
            rw [h]
        | due h h' => exact ⟨fun _ => h, fun _ => h'⟩
        | validated h => simp [h] at hdone
        | exhausted h => simp [h] at hdone
        | used h => exact absurd (hcfg ▸ h) hused
        | quiet h => exact absurd hprobing h
        | late h => exact absurd h (Int.not_le.mpr hearly)
      by_cases hsend : now ≥ p.nextSend
      · rw [if_pos hsend, if_pos (hdue.mpr hsend)]
        refine ⟨⟨?_, ?_⟩, ⟨?_, .same ?_⟩, rfl⟩
        · simp only [emitProbe]
          rw [hsame]
        · simp only [emitProbe, List.map_append, hout, List.map_cons, List.map_nil]
          rw [hsame]
          rw [masked_encodeProbe p.remote.ep p.txn _ s'.txnCounter s.txnCounter]
        · simp only [emitProbe]
        · simp only [emitProbe]
          rw [hsame]
      · rw [if_neg hsend, if_neg (fun h => hsend (hdue.mp h))]
        exact ⟨⟨hsame, hout⟩, ⟨rfl, hunread⟩, rfl⟩

theorem visitAll_alike {u : PunchSession} {ps ps' : List Pair} (hcfg : u.cfg = s.cfg)
    (hprobing : u.state = .probing) (hearly : now - u.started < u.cfg.totalTimeout)
    (htwin : Twin s s') (hpairs : List.Forall₂ (Near now u) ps ps') :
    Twin (visitAll P now s ps).1 (visitAll P now s' ps').1 ∧
      List.Forall₂ (Near now u) (visitAll P now s ps).2.1 (visitAll P now s' ps').2.1 ∧
      (visitAll P now s' ps').2.2 = (visitAll P now s ps).2.2 := by
  induction hpairs generalizing s s' with
  | nil => exact ⟨htwin, .nil, rfl⟩
  | @cons p p' ps ps' hp _ ih =>
      obtain ⟨htwin', hnear, hlive⟩ := visit_alike (P := P) hcfg hprobing hearly htwin hp
      obtain ⟨hrest, hnears, hlives⟩ := ih (hcfg.trans (cfg_visit P s p now).symm) htwin'
      rw [visitAll_cons, visitAll_cons]
      exact ⟨hrest, .cons hnear hnears, by rw [hlive, hlives]⟩

/-- The session with other pairs, packets and numbers. -/
def replaced (s : PunchSession) (pairs : List Pair) (out : List Outgoing) (txnCounter : Nat) :
    PunchSession :=
  { s with pairs := pairs, out := out, txnCounter := txnCounter }

theorem Alike.exists_replaced (h : Alike t s s') : ∃ pairs out n,
    s' = s.replaced pairs out n ∧ List.Forall₂ (Near t s) s.pairs pairs ∧
      out.map Outgoing.masked = s.out.map Outgoing.masked :=
  ⟨_, _, _, h.same, h.pairs, h.out⟩

theorem visited_alike (h : Alike now s s') (hprobing : s.state = .probing)
    (hearly : now - s.started < s.cfg.totalTimeout) :
    Alike now (s.visited P now) (s'.visited P now) ∧
      (visitAll P now s' s'.pairs).2.2 = (visitAll P now s s.pairs).2.2 := by
  obtain ⟨htwin, hnears, hlives⟩ := visitAll_alike (P := P) rfl hprobing hearly h.toTwin h.pairs
  obtain ⟨hcfg, hstarted, hstate⟩ := visited_frame P s now
  refine ⟨⟨⟨?_, htwin.out⟩, ?_⟩, hlives⟩
  · unfold visited
    rw [htwin.same]
  · exact hnears.imp fun _ _ hp => hp.congr hcfg hstarted (Or.inl hstate)

/-! ## Nomination

What is known of the pairs is the same on both sides, so the same pair is
picked. -/

/-- The loop of `maybe_nominate` reads what is known of the pairs. -/
theorem bestFrom_core (i : Nat) (best : Option (Nat × Pair)) (ps : List Pair) :
    bestFrom i (best.map (Prod.map id Pair.core)) (ps.map Pair.core) =
      (bestFrom i best ps).map (Prod.map id Pair.core) := by
  induction ps generalizing i best with
  | nil => rfl
  | cons p ps ih =>
      have hbetter : better (best.map (Prod.map id Pair.core)) i p.core =
          (better best i p).map (Prod.map id Pair.core) := by
        unfold better
        rw [Pair.core_validated]
        split
        · rfl
        · cases best with
          | none => rfl
          | some bq =>
              obtain ⟨b, q⟩ := bq
              dsimp only [Option.map_some, Prod.map, id]
              rw [Pair.core_priority, Pair.core_priority]
              split <;> rfl
      rw [List.map_cons, bestFrom, hbetter, ih]
      rfl

theorem Alike.maybeNominate (h : Alike t s s') : Alike t s.maybeNominate s'.maybeNominate := by
  have hbest : (bestFrom 0 none s'.pairs).map (Prod.map id Pair.core) =
      (bestFrom 0 none s.pairs).map (Prod.map id Pair.core) := by
    rw [← bestFrom_core, ← bestFrom_core, known_of_near h.pairs]
  obtain ⟨pairs, out, n, rfl, hpairs, hout⟩ := h.exists_replaced
  have hbest : (bestFrom 0 none pairs).map (Prod.map id Pair.core) =
      (bestFrom 0 none s.pairs).map (Prod.map id Pair.core) := hbest
  unfold PunchSession.maybeNominate
  have hnominated : (s.replaced pairs out n).nominated = s.nominated := rfl
  have hsearch : bestFrom 0 none (s.replaced pairs out n).pairs = bestFrom 0 none pairs := rfl
  rw [hnominated, hsearch]
  split
  · exact h
  · cases hs : bestFrom 0 none s.pairs with
    | none =>
        rw [hs] at hbest
        rw [Option.map_eq_none_iff.mp hbest]
        exact h
    | some ip =>
        obtain ⟨i, p⟩ := ip
        rw [hs] at hbest
        obtain ⟨⟨j, q⟩, hq, hcore⟩ := Option.map_eq_some_iff.mp hbest
        rw [hq]
        have hindex : j = i := congrArg Prod.fst hcore
        have hremote : q.remote = p.remote := congrArg (fun x => x.2.remote) hcore
        have htxn : q.txn = p.txn := congrArg (fun x => x.2.txn) hcore
        have hrtt : q.rtt = p.rtt := congrArg (fun x => x.2.rtt) hcore
        dsimp only
        rw [hindex, hremote, htxn, hrtt]
        refine ⟨⟨rfl, hout⟩, hpairs.imp fun _ _ hp => hp.congr rfl rfl (Or.inr ?_)⟩
        exact PunchState.noConfusion

theorem Alike.nominateIfDue (h : Alike t s s') (now : Instant) :
    Alike t (s.nominateIfDue now) (s'.nominateIfDue now) := by
  have hat : s'.nominateAt = s.nominateAt := by rw [h.same]
  unfold PunchSession.nominateIfDue
  rw [hat]
  split
  · exact h
  · split
    · exact h.maybeNominate
    · exact h

theorem Alike.giveUp (h : Alike t s s') : Alike t s.giveUp s'.giveUp := by
  refine ⟨⟨?_, h.out⟩, h.pairs.imp fun _ _ hp => hp.congr rfl rfl (Or.inr nofun)⟩
  unfold PunchSession.giveUp
  rw [h.same]

theorem Alike.nominated_eq (h : Alike t s s') : s'.nominated = s.nominated := by rw [h.same]

theorem Alike.validated_eq (h : Alike t s s') :
    s'.pairs.any Pair.validated = s.pairs.any Pair.validated := by
  have hcomp : ∀ ps : List Pair, ps.any Pair.validated = (ps.map Pair.core).any Pair.validated := by
    intro ps
    rw [List.any_map]
    rfl
  rw [hcomp s'.pairs, hcomp s.pairs, known_of_near h.pairs]

theorem Alike.conclude (h : Alike t s s') (anyLive : Bool) (now : Instant) :
    Alike t (s.conclude anyLive now) (s'.conclude anyLive now) := by
  have hdue := h.nominateIfDue now
  unfold PunchSession.conclude
  dsimp only
  rw [hdue.nominated_eq, hdue.validated_eq]
  split
  · split
    · exact hdue.maybeNominate
    · exact hdue.giveUp
  · exact hdue

theorem Alike.onTimeout (h : Alike now s s') : Alike now (s.onTimeout P now) (s'.onTimeout P now) := by
  have hstate : s'.state = s.state := by rw [h.same]
  have hstarted : s'.started = s.started := by rw [h.same]
  have hcfg : s'.cfg = s.cfg := by rw [h.same]
  rw [onTimeout_eq, onTimeout_eq, hstate, hstarted, hcfg, h.maybeNominate.nominated_eq]
  split
  · exact h.nominateIfDue now
  · rename_i hprobing
    split
    · split
      · exact h.maybeNominate.giveUp
      · exact h.maybeNominate
    · rename_i hearly
      obtain ⟨hvisited, hlives⟩ :=
        visited_alike (P := P) h (not_not.mp hprobing) (Int.not_le.mp hearly)
      rw [hlives]
      exact hvisited.conclude _ now

/-! ## The other calls

The start, a probe of the peer's and a reply, and then any run of calls. -/

theorem schedule_alike (h : Alike t s s') (now : Instant) :
    Alike now (s.schedule now) (s'.schedule now) := by
  obtain ⟨pairs, out, n, rfl, hpairs, hout⟩ := h.exists_replaced
  refine ⟨⟨rfl, hout⟩, ?_⟩
  change List.Forall₂ _ (s.pairs.zipIdx.map _) (pairs.zipIdx.map _)
  -- both schedules write the same times
  have hall : ∀ (k : Nat), List.Forall₂ (Near now (s.schedule now))
      ((s.pairs.zipIdx k).map fun x => { x.1 with nextSend := now + s.cfg.stagger * x.2 })
      ((pairs.zipIdx k).map fun x => { x.1 with nextSend := now + s.cfg.stagger * x.2 }) := by
    clear h
    generalize s.schedule now = u
    generalize s.pairs = ps at hpairs
    induction hpairs with
    | nil => exact fun _ => .nil
    | cons hp _ ih =>
        intro k
        refine .cons ⟨?_, .same rfl⟩ (ih (k + 1))
        rw [hp.1]
  exact hall 0

theorem Alike.begin (h : Alike t s s') (hle : t ≤ now) : Alike now (s.begin P now) (s'.begin P now) := by
  have hstate : s'.state = s.state := by rw [h.same]
  have hempty : s'.pairs.isEmpty = s.pairs.isEmpty := by
    rw [Bool.eq_iff_iff, List.isEmpty_iff_length_eq_zero, List.isEmpty_iff_length_eq_zero,
      h.pairs.length_eq]
  unfold PunchSession.begin
  rw [hstate, hempty]
  split
  · exact h.later hle
  · rename_i hidle
    have hquiet : s.state ≠ .probing := by
      rw [not_not.mp hidle]
      exact nofun
    split
    · refine Alike.giveUp ⟨⟨?_, h.out⟩, ?_⟩
      · rw [h.same]
      · exact h.pairs.imp fun _ _ hp => ⟨hp.1, .quiet hquiet⟩
    · exact (schedule_alike h now).onTimeout

theorem Alike.onPeerProbe (h : Alike t s s') (src : Endpoint) (now : Instant) :
    Alike t (s.onPeerProbe src now) (s'.onPeerProbe src now) := by
  refine ⟨⟨?_, h.out⟩, ?_⟩
  · unfold PunchSession.onPeerProbe
    rw [h.same]
  · refine List.rel_map ?_ h.pairs
    rintro p p' ⟨heq, hunread⟩
    generalize p'.nextSend = n at heq
    subst heq
    dsimp only
    split
    · exact ⟨rfl, .same rfl⟩
    · exact Near.congr ⟨rfl, hunread⟩ rfl rfl (Or.inl rfl)

theorem Alike.onProbe (h : Alike t s s') (src : Endpoint) (dgram : Bytes) (now : Instant) :
    Alike t (s.onProbe P src dgram now) (s'.onProbe P src dgram now) := by
  have hkey : s'.probeKey = s.probeKey := by rw [h.same]
  have hanswered : Alike t
      { s with
        txnCounter := incr 32 s.txnCounter
        out := s.out ++ (answerProbe P src dgram s.probeKey s.txnCounter).toList }
      { s' with
        txnCounter := incr 32 s'.txnCounter
        out := s'.out ++ (answerProbe P src dgram s'.probeKey s'.txnCounter).toList } := by
    refine ⟨⟨?_, ?_⟩, h.pairs.imp fun _ _ hp => hp.congr rfl rfl (Or.inl rfl)⟩
    · rw [h.same]
    · dsimp only
      rw [List.map_append, List.map_append, h.out, hkey, ← Option.toList_map,
        ← Option.toList_map, masked_answerProbe P src dgram s.probeKey s'.txnCounter s.txnCounter]
  exact hanswered.onPeerProbe src now

theorem forall₂_set {R : Pair → Pair → Prop} {ps ps' : List Pair} (h : List.Forall₂ R ps ps')
    {p p' : Pair} (hp : R p p') (i : Nat) : List.Forall₂ R (ps.set i p) (ps'.set i p') := by
  induction h generalizing i with
  | nil => exact .nil
  | cons hq hrest ih =>
      cases i with
      | zero => exact .cons hp hrest
      | succ i => exact .cons hq (ih i)

theorem Alike.validate (h : Alike t s s') {p p' : Pair} (hp : Near t s p p') (i : Nat)
    (src : Endpoint) (now : Instant) :
    Alike t (s.validate i p src now) (s'.validate i p' src now) := by
  have hfirst : p'.firstSent = p.firstSent := by rw [hp.1]
  have htxn : p'.txn = p.txn := by rw [hp.1]
  have hcfg : s'.cfg = s.cfg := by rw [h.same]
  have hat : s'.nominateAt = s.nominateAt := by rw [h.same]
  -- the two sessions with the reply noted
  have hnoted : ∀ at_ : Option Instant, Alike t
      { s with
        pairs := s.pairs.set i (p.answer src now)
        events := s.events ++ [.pathValidated src p.txn (p.answer src now).rtt]
        nominateAt := at_ }
      { s' with
        pairs := s'.pairs.set i (p'.answer src now)
        events := s'.events ++ [.pathValidated src p'.txn (p'.answer src now).rtt]
        nominateAt := at_ } := by
    intro at_
    refine ⟨⟨?_, h.out⟩, forall₂_set ?_ ⟨?_, .validated rfl⟩ i⟩
    · unfold Pair.answer
      dsimp only
      rw [hfirst, htxn, h.same]
    · exact h.pairs.imp fun _ _ hq => hq.congr rfl rfl (Or.inl rfl)
    · unfold Pair.answer
      rw [hp.1]
  have hkept := hnoted s.nominateAt
  have hput := hnoted (some (now + s.cfg.nominationGrace))
  rw [h.nominated_eq, hcfg] at hkept hput
  unfold PunchSession.validate
  dsimp only
  rw [h.nominated_eq, hat, hcfg]
  split
  · exact hkept
  · split
    · exact hkept.maybeNominate
    · split
      · exact hput
      · exact hkept

theorem Alike.onProbeOk (h : Alike t s s') (src : Endpoint) (txn : ProbeTxn) (now : Instant) :
    Alike t (s.onProbeOk src txn now) (s'.onProbeOk src txn now) := by
  have howner : owner s'.pairs txn = owner s.pairs txn := by
    rw [← owner_known, ← owner_known, known, known, known_of_near h.pairs]
  unfold owner at howner
  unfold PunchSession.onProbeOk
  rw [howner]
  split
  · exact h
  · rename_i i _
    cases hp : s.pairs[i]? with
    | none =>
        have hnone : s'.pairs[i]? = none := by
          rw [List.getElem?_eq_none_iff] at hp ⊢
          rwa [← h.pairs.length_eq]
        rw [hnone]
        exact h
    | some p =>
        obtain ⟨hi, hget⟩ := List.getElem?_eq_some_iff.mp hp
        have hi' : i < s'.pairs.length := h.pairs.length_eq ▸ hi
        have hnear : Near t s p (s'.pairs.get ⟨i, hi'⟩) := by
          have hall := h.pairs.get hi hi'
          rwa [List.get_eq_getElem, hget] at hall
        rw [List.getElem?_eq_getElem hi']
        dsimp only
        have hval : (s'.pairs.get ⟨i, hi'⟩).validated = p.validated := by rw [hnear.1]
        rw [← List.get_eq_getElem (i := ⟨i, hi'⟩), hval]
        split
        · exact h
        · exact h.validate hnear i src now

theorem Alike.onDatagram (h : Alike t s s') (src : Endpoint) (dgram : Bytes) (now : Instant) :
    Alike t (s.onDatagram P src dgram now) (s'.onDatagram P src dgram now) := by
  have hkey : s'.probeKey = s.probeKey := by rw [h.same]
  unfold PunchSession.onDatagram
  rw [hkey]
  split
  · exact h.onProbe src dgram now
  · split
    · exact h
    · exact h.onProbeOk src _ now

/-- Every call keeps sessions alike. -/
theorem Alike.step (h : Alike t s s') {op : Op} (hle : ∀ now ∈ op.time, t ≤ now) :
    Alike (op.time.getD t) (s.step P op) (s'.step P op) := by
  cases op with
  | begin now => exact h.begin (hle now rfl)
  | onTimeout now => exact (h.later (hle now rfl)).onTimeout
  | onDatagram src dgram now => exact (h.later (hle now rfl)).onDatagram src dgram now
  | onPeerProbe src now => exact (h.later (hle now rfl)).onPeerProbe src now
  | pollTransmit =>
      have hout := h.out
      simp only [PunchSession.step, pollTransmit]
      cases ho : s.out with
      | nil =>
          rw [ho, List.map_nil, List.map_eq_nil_iff] at hout
          rw [hout]
          exact h
      | cons o rest =>
          rw [ho, List.map_cons] at hout
          obtain ⟨o', rest', ho', -, hrest⟩ := List.map_eq_cons_iff.mp hout
          rw [ho']
          refine ⟨⟨?_, hrest⟩, h.pairs.imp fun _ _ hp => hp.congr rfl rfl (Or.inl rfl)⟩
          rw [h.same]
  | pollEvent =>
      have hevents : s'.events = s.events := by rw [h.same]
      simp only [PunchSession.step, pollEvent, hevents]
      cases he : s.events with
      | nil => exact h
      | cons e rest =>
          refine ⟨⟨?_, h.out⟩, h.pairs.imp fun _ _ hp => hp.congr rfl rfl (Or.inl rfl)⟩
          rw [h.same]

/-- What calls hand out of alike sessions is the same. -/
theorem Alike.handed (h : Alike t s s') (op : Op) :
    (taken s' op).map Outgoing.masked = (taken s op).map Outgoing.masked ∧
      polled s' op = polled s op := by
  have hevents : s'.events = s.events := by rw [h.same]
  cases op with
  | pollTransmit =>
      have hout := h.out
      refine ⟨?_, rfl⟩
      simp only [taken, pollTransmit]
      cases ho : s.out with
      | nil =>
          rw [ho, List.map_nil, List.map_eq_nil_iff] at hout
          rw [hout]
      | cons o rest =>
          rw [ho, List.map_cons] at hout
          obtain ⟨o', rest', ho', hfirst, -⟩ := List.map_eq_cons_iff.mp hout
          rw [ho']
          exact congrArg (fun x => [x]) hfirst
  | pollEvent =>
      refine ⟨rfl, ?_⟩
      simp only [polled, pollEvent, hevents]
      cases s.events with
      | nil => rfl
      | cons e rest => rfl
  | _ => exact ⟨rfl, rfl⟩

/-- Alike sessions send and report the same from then on. -/
theorem Alike.run (h : Alike t s s') (ops : List Op)
    (hsorted : (t :: times ops).Pairwise (· ≤ ·)) :
    (sent P s' ops).map Outgoing.masked = (sent P s ops).map Outgoing.masked ∧
      emitted P s' ops = emitted P s ops := by
  induction ops generalizing s s' t with
  | nil =>
      refine ⟨h.out, ?_⟩
      rw [emitted, emitted, ledger, ledger, trace, trace, run_nil, run_nil, h.same]
  | cons op ops ih =>
      obtain ⟨htaken, hpolled⟩ := h.handed op
      rw [times_cons] at hsorted
      have hle : ∀ now ∈ op.time, t ≤ now := by
        intro now hnow
        refine List.rel_of_pairwise_cons hsorted ?_
        exact List.mem_append_left _ (Option.mem_toList.mpr hnow)
      have hrest : (op.time.getD t :: times ops).Pairwise (· ≤ ·) := by
        cases htime : op.time with
        | none =>
            rw [htime] at hsorted
            exact hsorted
        | some now =>
            rw [htime] at hsorted
            exact hsorted.tail
      obtain ⟨hsent, hemitted⟩ := ih (h.step (P := P) hle) hrest
      unfold sent emitted at *
      rw [ledger_cons, ledger_cons, ledger_cons, ledger_cons, List.map_append, List.map_append,
        htaken, hsent, hpolled, hemitted]
      exact ⟨rfl, rfl⟩

end PunchSession

end UConnect.Path
