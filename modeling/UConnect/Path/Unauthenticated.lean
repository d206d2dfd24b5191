/-
  Path/Unauthenticated.lean --- what a datagram without a valid tag does to a
  keyed punch.

  Source: src/path/punch.cpp, `on_datagram` and `on_peer_probe`.

  `on_datagram` answers a probe only if its tag is right, but notes it either
  way: the next probe to the sender's address is brought forward.  The node asks
  `answer_probe` first and notes answered probes only; a session that is fed the
  datagram itself can be made to send early by anyone who can put a pair's
  address on a packet.  Exactly then (`Disturbs`) the datagram is noticed.
-/
import UConnect.Path.Alike

set_option autoImplicit false

namespace UConnect.Path

open UConnect.Foundation UConnect.Crypto UConnect.Wire

/-- A `Probe` or `ProbeOk` with a valid tag under the key. -/
def Authentic (P : Primitives) (key : SymKey) (dgram : Bytes) : Prop :=
  ∃ h r, Header.decode { rest := dgram } = (some h, r) ∧
    ((h.type = .probe ∧ ∃ probe r', Probe.decode.run r = some (probe, r') ∧
        probe.tag = probeTag P (some key) probe.txn false) ∨
      (h.type = .probeOk ∧ ∃ ok r', ProbeOk.decode.run r = some (ok, r') ∧
        ok.tag = probeTag P (some key) ok.txn true))

variable {P : Primitives} {key : SymKey} {dgram : Bytes}

/-- A probe that is not authentic is not answered. -/
theorem answerProbe_of_not_authentic (h : ¬ Authentic P key dgram) (src : Endpoint) (n : Nat) :
    answerProbe P src dgram (some key) n = none := by
  unfold answerProbe
  split
  · rfl
  · rename_i hd r hdecode
    split
    · rfl
    · rename_i htype
      split
      · rfl
      · rename_i probe r' hprobe
        split
        · rfl
        · rename_i htag
          refine absurd ⟨hd, r, hdecode, Or.inl ⟨not_not.mp htype, probe, r', hprobe, ?_⟩⟩ h
          by_contra hne
          exact htag (by simpa using Ne.symm hne)

theorem answered_of_not_authentic (h : ¬ Authentic P key dgram) :
    PunchSession.answered P (some key) dgram = none := by
  unfold PunchSession.answered
  split
  · rfl
  · rename_i hd r hdecode
    split
    · rfl
    · rename_i htype
      split
      · rfl
      · rename_i ok r' hok
        split
        · rfl
        · rename_i htag
          refine absurd ⟨hd, r, hdecode, Or.inr ⟨not_not.mp htype, ok, r', hok, ?_⟩⟩ h
          by_contra hne
          exact htag (by simpa using Ne.symm hne)

namespace PunchSession

/-- The datagram leaves no trace in what is sent and reported from then on,
header numbers aside. -/
def Unnoticed (P : Primitives) (s : PunchSession) (src : Endpoint) (dgram : Bytes)
    (now : Instant) : Prop :=
  ∀ ops, (now :: times ops).Pairwise (· ≤ ·) →
    (sent P (s.onDatagram P src dgram now) ops).map Outgoing.masked =
        (sent P s ops).map Outgoing.masked ∧
      emitted P (s.onDatagram P src dgram now) ops = emitted P s ops

/-- A pair that still sends, at a later time. -/
def Waiting (s : PunchSession) (now : Instant) (p : Pair) : Prop :=
  p.validated = false ∧ p.exhausted = false ∧ (p.attempts : Int) < s.cfg.maxAttemptsPerPair ∧
    now < p.nextSend

/-- The datagram is headed as a probe and comes, while the punch is on, from the
address of a pair that waits for its next probe. -/
def Disturbs (s : PunchSession) (src : Endpoint) (dgram : Bytes) (now : Instant) : Prop :=
  probing dgram = true ∧ s.state = .probing ∧ now - s.started < s.cfg.totalTimeout ∧
    ∃ p ∈ s.pairs, p.remote.ep.same src = true ∧ s.Waiting now p

variable {s : PunchSession} {src : Endpoint} {now : Instant}

/-- What is left of the call when the datagram proves nothing. -/
theorem onDatagram_of_not_authentic (hkey : s.probeKey = some key)
    (h : ¬ Authentic P key dgram) :
    s.onDatagram P src dgram now =
      if probing dgram then { s with txnCounter := incr 32 s.txnCounter }.onPeerProbe src now
      else s := by
  unfold onDatagram onProbe
  rw [hkey, answerProbe_of_not_authentic h, answered_of_not_authentic h]
  simp

/-- A datagram that disturbs no pair gives a session alike to the one without
it. -/
theorem alike_of_not_disturbs (hkey : s.probeKey = some key) (h : ¬ Authentic P key dgram)
    (hquiet : ¬ s.Disturbs src dgram now) : Alike now s (s.onDatagram P src dgram now) := by
  rw [onDatagram_of_not_authentic hkey h]
  split
  · rename_i hprobing
    refine ⟨⟨rfl, rfl⟩, ?_⟩
    refine List.forall₂_map_right_iff.mpr (List.forall₂_same.mpr fun p hp => ?_)
    split
    · rename_i hcond
      refine ⟨rfl, ?_⟩
      by_contra hread
      obtain ⟨⟨hsrc, hval⟩, hexh⟩ : (p.remote.ep.same src = true ∧ p.validated = false) ∧
        p.exhausted = false := by simpa using hcond
      refine hquiet ⟨hprobing, ?_, ?_, p, hp, hsrc, hval, hexh, ?_, ?_⟩
      · by_contra hstate
        exact hread (.quiet hstate)
      · exact Int.not_le.mp fun hlate => hread (.late hlate)
      · exact Int.not_le.mp fun hused => hread (.used hused)
      · exact Int.not_le.mp fun hdue => hread (.due hdue (Int.le_refl now))
    · exact Near.refl now s p
  · exact Alike.refl now s

/-! ## A disturbed punch sends more

The other direction: where a datagram brings a probe forward, a run that looks
at the clock at once sends one packet more than it would have. -/

/-- Is a pair probed by the loop at `now`? -/
def due (max : Int) (now : Instant) (p : Pair) : Bool :=
  !p.validated && !p.exhausted && decide ((p.attempts : Int) < max) && decide (p.nextSend ≤ now)

theorem length_visit (P : Primitives) (s : PunchSession) (p : Pair) (now : Instant) :
    (s.visit P p now).1.out.length =
      s.out.length + if due s.cfg.maxAttemptsPerPair now p then 1 else 0 := by
  unfold due
  rcases visit_cases P s p now with
    ⟨hdone, h⟩ | ⟨hval, hexh, ⟨hused, h⟩ | ⟨hleft, ⟨hdue, h⟩ | ⟨hwait, h⟩⟩⟩ <;> rw [h]
  · rcases hdone with hdone | hdone <;> simp [hdone]
  · simp [Int.not_lt.mpr hused]
  · simp [hval, hexh, hleft, hdue, emitProbe]
  · simp [Int.not_le.mpr hwait]

theorem length_visitAll (P : Primitives) (s : PunchSession) (ps : List Pair) (now : Instant) :
    (visitAll P now s ps).1.out.length =
      s.out.length + ps.countP (due s.cfg.maxAttemptsPerPair now) := by
  induction ps generalizing s with
  | nil => rfl
  | cons p ps ih =>
      rw [visitAll_cons, ih, length_visit, cfg_visit, List.countP_cons]
      omega

theorem Settles.out_eq {s' : PunchSession} (h : Settles s s') : s'.out = s.out := by
  cases h with
  | pending => rfl
  | nominate =>
      rcases maybeNominate_cases s with ⟨-, hsame⟩ | ⟨-, -, hsame⟩ | ⟨-, i, p, -, hnew⟩
      · rw [hsame]
      · rw [hsame]
      · rw [hnew]
  | giveUp => rfl

/-- While the punch is on, a call of `on_timeout` sends one probe for each pair
that is due. -/
theorem length_onTimeout (hprobing : s.state = .probing)
    (hearly : now - s.started < s.cfg.totalTimeout) :
    (s.onTimeout P now).out.length =
      s.out.length + s.pairs.countP (due s.cfg.maxAttemptsPerPair now) := by
  rw [onTimeout_eq, if_neg (not_not.mpr hprobing), if_neg (Int.not_le.mpr hearly),
    (Settles.conclude ((visited_frame P s now).2.2.trans hprobing) _ now).out_eq]
  exact length_visitAll P s s.pairs now

/-- Bringing a waiting pair forward makes one more pair due. -/
theorem countP_lt_countP_map {q : Pair → Bool} {f : Pair → Pair} {ps : List Pair}
    (hmono : ∀ p, q p = true → q (f p) = true) {p : Pair} (hp : p ∈ ps) (hold : q p = false)
    (hnew : q (f p) = true) : ps.countP q < (ps.map f).countP q := by
  rw [List.countP_map]
  induction ps with
  | nil => cases hp
  | cons x ps ih =>
      have hle : ps.countP q ≤ ps.countP (q ∘ f) :=
        List.countP_mono_left fun y _ hy => hmono y hy
      rw [List.countP_cons, List.countP_cons]
      rcases List.mem_cons.mp hp with rfl | hp
      · rw [hold, Function.comp, hnew]
        simp only [if_true, if_false, Bool.false_eq_true]
        omega
      · have hlt := ih hp
        have hhead : (if q x = true then 1 else 0) ≤ if (q ∘ f) x = true then 1 else 0 := by
          split
          · rename_i hx
            exact Nat.le_of_eq (if_pos (hmono x hx)).symm
          · exact Nat.zero_le _
        omega

theorem sent_onTimeout (P : Primitives) (s : PunchSession) (now : Instant) :
    sent P s [.onTimeout now] = (s.onTimeout P now).out := rfl

theorem noticed_of_disturbs (hkey : s.probeKey = some key) (h : ¬ Authentic P key dgram)
    (hdisturbs : s.Disturbs src dgram now) : ¬ Unnoticed P s src dgram now := by
  obtain ⟨hprobing, hstate, hearly, p, hp, hsrc, hval, hexh, hleft, hwait⟩ := hdisturbs
  intro hun
  obtain ⟨hsent, -⟩ := hun [.onTimeout now] (by simp [times, Op.time])
  have hlen := congrArg List.length hsent
  rw [onDatagram_of_not_authentic hkey h, if_pos hprobing, List.length_map, List.length_map,
    sent_onTimeout, sent_onTimeout, length_onTimeout (s := s) hstate hearly,
    length_onTimeout (by exact hstate) (by exact hearly)] at hlen
  have hmore := countP_lt_countP_map (q := due s.cfg.maxAttemptsPerPair now)
    (f := fun p => if p.remote.ep.same src && !p.validated && !p.exhausted then
      { p with nextSend := now } else p) ?_ hp ?_ ?_
  · exact absurd (Nat.add_left_cancel hlen) (Nat.ne_of_gt hmore)
  · intro q hq
    unfold due at hq ⊢
    split
    · simp only [Bool.and_eq_true, decide_eq_true_eq] at hq ⊢
      exact ⟨hq.1, Int.le_refl now⟩
    · exact hq
  · simp [due, Int.not_le.mpr hwait]
  · simp [due, hsrc, hval, hexh, hleft]

/-- An unauthenticated datagram goes unnoticed by a keyed punch exactly if it
does not disturb it. -/
theorem unnoticed_iff (hkey : s.probeKey = some key) (h : ¬ Authentic P key dgram) :
    Unnoticed P s src dgram now ↔ ¬ s.Disturbs src dgram now := by
  constructor
  · intro hun hdisturbs
    exact noticed_of_disturbs hkey h hdisturbs hun
  · intro hquiet ops hsorted
    exact (alike_of_not_disturbs hkey h hquiet).run ops hsorted

/-- The header of a probe, and nothing else. -/
def bareProbe : Bytes := [MsgType.probe, kVersion, 0, 0, 0, 0, 0, 0]

theorem bareProbe_not_authentic : ¬ Authentic Primitives.checksum (Vector.replicate 32 9) bareProbe := by
  have hdecode : Header.decode { rest := bareProbe } =
      (some { type := .probe }, { rest := [] }) := by decide
  rintro ⟨h, r, hh, ⟨-, probe, r', hprobe, -⟩ | ⟨htype, -⟩⟩
  · cases hdecode.symm.trans hh
    cases hprobe
  · cases hdecode.symm.trans hh
    exact absurd htype (by decide)

/-- The sample session once it has begun. -/
def sampleBegun : PunchSession := run (step Primitives.checksum) sampleSession [.begin 0]

/-- From the address of the first pair, a bare header makes the session send at
once. -/
theorem bareProbe_noticed :
    Created sampleSession ∧ sampleBegun.probeKey = some (Vector.replicate 32 9) ∧
      ¬ Authentic Primitives.checksum (Vector.replicate 32 9) bareProbe ∧
      ¬ Unnoticed Primitives.checksum sampleBegun (sampleEndpoint 1) bareProbe 1000000 := by
  refine ⟨sampleSession_created, by decide +kernel, bareProbe_not_authentic, fun h => ?_⟩
  obtain ⟨hsent, -⟩ := h [.onTimeout 1000000] (by decide)
  exact absurd (congrArg List.length hsent) (by decide +kernel)

/-- From an address that no pair has it goes unnoticed. -/
theorem unnoticed_iff_stranger :
    Unnoticed Primitives.checksum sampleBegun (sampleEndpoint 9) bareProbe 1000000 := by
  refine (@unnoticed_iff _ (Vector.replicate 32 9) _ _ _ _ (by decide +kernel)
    bareProbe_not_authentic).mpr ?_
  rintro ⟨-, -, -, p, hp, hsrc, -⟩
  have hnone : ∀ p ∈ sampleBegun.pairs, p.remote.ep.same (sampleEndpoint 9) = false := by
    decide +kernel
  rw [hnone p hp] at hsrc
  cases hsrc

end PunchSession

end UConnect.Path
