/-
  Path/PunchSteps.lean --- what the calls of a punch session do to its pairs.

  Source: src/path/punch.cpp.

  The schedule of a pair (when it is probed next, how often it was) is one thing
  and what is known of it (its address, its rank, its transaction, whether it
  answered) another: timers and the peer's probes touch the schedule, replies
  what is known.  `Pair.core` is what is known, `Keeps` a call that leaves it,
  and `bestFrom_spec` says what nomination picks.
-/
import UConnect.Path.Punch

set_option autoImplicit false

namespace UConnect.Path

open UConnect.Foundation UConnect.Crypto UConnect.Wire

/-- What is known of a pair, without its schedule. -/
def Pair.core (p : Pair) : Pair :=
  { p with nextSend := 0, firstSent := 0, attempts := 0, exhausted := false }

@[simp] theorem Pair.core_remote (p : Pair) : p.core.remote = p.remote := rfl
@[simp] theorem Pair.core_priority (p : Pair) : p.core.priority = p.priority := rfl
@[simp] theorem Pair.core_txn (p : Pair) : p.core.txn = p.txn := rfl
@[simp] theorem Pair.core_validated (p : Pair) : p.core.validated = p.validated := rfl
@[simp] theorem Pair.core_rtt (p : Pair) : p.core.rtt = p.rtt := rfl

/-- The pair a reply came for. -/
def Pair.answer (p : Pair) (src : Endpoint) (now : Instant) : Pair :=
  { p with
    remote := { p.remote with ep := src }
    validated := true
    rtt := PunchSession.count (now - p.firstSent) * 1000000 }

namespace PunchSession

variable {P : Primitives}

/-- What is known of the pairs. -/
def known (s : PunchSession) : List Pair := s.pairs.map Pair.core

/-- A call that sends and reschedules at most. -/
structure Keeps (s s' : PunchSession) : Prop where
  known : s'.known = s.known
  probeKey : s'.probeKey = s.probeKey
  state : s'.state = s.state
  nominated : s'.nominated = s.nominated
  events : s'.events = s.events

theorem Keeps.refl (s : PunchSession) : Keeps s s := ⟨rfl, rfl, rfl, rfl, rfl⟩

/-! ## The loop of `on_timeout`

A pass changes schedules and queues probes, and nothing that is known. -/

section Visit

variable (P) (s : PunchSession) (p : Pair) (now : Instant)

/-- The cases of the loop body. -/
theorem visit_cases :
    ((p.validated = true ∨ p.exhausted = true) ∧ s.visit P p now = (s, p, false)) ∨
    (p.validated = false ∧ p.exhausted = false ∧
      ((s.cfg.maxAttemptsPerPair ≤ p.attempts ∧
          s.visit P p now = (s, { p with exhausted := true }, false)) ∨
        ((p.attempts : Int) < s.cfg.maxAttemptsPerPair ∧
          ((p.nextSend ≤ now ∧ s.visit P p now =
              ((s.emitProbe P p now).1, (s.emitProbe P p now).2, true)) ∨
            (now < p.nextSend ∧ s.visit P p now = (s, p, true)))))) := by
  unfold visit
  by_cases hdone : p.validated = true ∨ p.exhausted = true
  · left
    refine ⟨hdone, ?_⟩
    rw [if_pos (by simpa using hdone)]
  · right
    have hlive : p.validated = false ∧ p.exhausted = false := by simpa using hdone
    refine ⟨hlive.1, hlive.2, ?_⟩
    rw [if_neg (by simpa using hdone)]
    by_cases hused : s.cfg.maxAttemptsPerPair ≤ p.attempts
    · exact Or.inl ⟨hused, if_pos hused⟩
    · refine Or.inr ⟨Int.not_le.mp hused, ?_⟩
      rw [if_neg hused]
      by_cases hdue : p.nextSend ≤ now
      · exact Or.inl ⟨hdue, if_pos hdue⟩
      · exact Or.inr ⟨Int.not_le.mp hdue, if_neg hdue⟩

/-- The loop body changes what it sends and counts, and the schedule of its
pair. -/
theorem visit_keeps : s.visit P p now =
      ({ s with
          out := (s.visit P p now).1.out
          txnCounter := (s.visit P p now).1.txnCounter
          drawn := (s.visit P p now).1.drawn }, (s.visit P p now).2) ∧
    (s.visit P p now).2.1.core = p.core := by
  rcases visit_cases P s p now with ⟨-, h⟩ | ⟨-, -, ⟨-, h⟩ | ⟨-, ⟨-, h⟩ | ⟨-, h⟩⟩⟩ <;> rw [h] <;>
    exact ⟨rfl, rfl⟩

theorem visitAll_cons (ps : List Pair) :
    visitAll P now s (p :: ps) =
      ((visitAll P now (s.visit P p now).1 ps).1,
        (s.visit P p now).2.1 :: (visitAll P now (s.visit P p now).1 ps).2.1,
        (s.visit P p now).2.2 || (visitAll P now (s.visit P p now).1 ps).2.2) := rfl

theorem visitAll_keeps (ps : List Pair) : (visitAll P now s ps).1 =
      { s with
        out := (visitAll P now s ps).1.out
        txnCounter := (visitAll P now s ps).1.txnCounter
        drawn := (visitAll P now s ps).1.drawn } ∧
    (visitAll P now s ps).2.1.map Pair.core = ps.map Pair.core := by
  induction ps generalizing s with
  | nil => exact ⟨rfl, rfl⟩
  | cons p ps ih =>
      obtain ⟨hvisit, hcore⟩ := visit_keeps P s p now
      obtain ⟨hrest, hcores⟩ := ih (s.visit P p now).1
      rw [visitAll_cons]
      refine ⟨?_, ?_⟩
      · dsimp only
        rw [hrest, hvisit]
      · rw [List.map_cons, List.map_cons, hcore, hcores]

/-- The session after the loop. -/
def visited : PunchSession :=
  { (visitAll P now s s.pairs).1 with pairs := (visitAll P now s s.pairs).2.1 }

theorem visited_keeps : Keeps s (s.visited P now) := by
  obtain ⟨hsession, hcores⟩ := visitAll_keeps P s now s.pairs
  unfold visited
  rw [hsession]
  exact ⟨hcores, rfl, rfl, rfl, rfl⟩

theorem onTimeout_eq : s.onTimeout P now =
    if s.state ≠ .probing then s.nominateIfDue now
    else if now - s.started ≥ s.cfg.totalTimeout then
      if s.maybeNominate.nominated.isNone then s.maybeNominate.giveUp else s.maybeNominate
    else (s.visited P now).conclude (visitAll P now s s.pairs).2.2 now := by
  have hskip : (if s.nominated.isNone then s.maybeNominate else s) = s.maybeNominate := by
    unfold maybeNominate
    cases s.nominated with
    | none => rfl
    | some i => rfl
  unfold onTimeout
  rw [hskip]
  rfl

end Visit

theorem onPeerProbe_keeps (s : PunchSession) (src : Endpoint) (now : Instant) :
    Keeps s (s.onPeerProbe src now) := by
  refine ⟨?_, rfl, rfl, rfl, rfl⟩
  unfold PunchSession.known onPeerProbe
  rw [List.map_map]
  apply List.map_congr_left
  intro p _
  dsimp only [Function.comp]
  split
  · rfl
  · rfl

theorem schedule_known (s : PunchSession) (now : Instant) : (s.schedule now).known = s.known := by
  unfold PunchSession.known schedule
  dsimp only
  rw [List.map_map]
  have hcore : (Pair.core ∘ fun x : Pair × Nat =>
      { x.1 with nextSend := now + s.cfg.stagger * x.2 }) = Pair.core ∘ Prod.fst := rfl
  rw [hcore, ← List.map_map, List.zipIdx_map_fst]

/-! ## Nomination

What `maybe_nominate` picks is the best in a sense that does not mention its
loop. -/

/-- A pair at least as good as every validated one. -/
def Best (pairs : List Pair) (i : Nat) (p : Pair) : Prop :=
  pairs[i]? = some p ∧ p.validated = true ∧
    ∀ q ∈ pairs, q.validated = true → q.priority ≤ p.priority

/-- The loop of `maybe_nominate`: it has seen `seen` and found `best` in it. -/
theorem bestFrom_spec (ps seen : List Pair) (best : Option (Nat × Pair))
    (hbest : ∀ i p, best = some (i, p) → Best seen i p)
    (hnone : best = none → ∀ q ∈ seen, q.validated = false) :
    (∀ i p, bestFrom seen.length best ps = some (i, p) → Best (seen ++ ps) i p) ∧
      (bestFrom seen.length best ps = none → ∀ q ∈ seen ++ ps, q.validated = false) := by
  induction ps generalizing seen best with
  | nil =>
      rw [List.append_nil]
      exact ⟨hbest, hnone⟩
  | cons p ps ih =>
      have hsplit : seen ++ p :: ps = (seen ++ [p]) ++ ps := by
        rw [List.append_assoc]
        rfl
      have hlen : seen.length + 1 = (seen ++ [p]).length := by
        rw [List.length_append]
        rfl
      have hhere : (seen ++ [p])[seen.length]? = some p := List.getElem?_concat_length
      -- a best pair of what was seen stays one unless `p` beats it
      have hstays : ∀ i q, Best seen i q → (p.validated = true → p.priority ≤ q.priority) →
          Best (seen ++ [p]) i q := by
        rintro i q ⟨hget, hval, hmax⟩ hp
        refine ⟨?_, hval, ?_⟩
        · rw [List.getElem?_append_left (List.getElem?_eq_some_iff.mp hget).1]
          exact hget
        · intro r hr hrv
          rcases List.mem_append.mp hr with hr | hr
          · exact hmax r hr hrv
          · cases List.mem_singleton.mp hr
            exact hp hrv
      have hcons : bestFrom seen.length best (p :: ps) =
          bestFrom (seen ++ [p]).length (better best seen.length p) ps := by
        rw [← hlen]
        rfl
      rw [hsplit, hcons]
      apply ih
      · intro i q hq
        unfold better at hq
        split at hq
        · rename_i hp
          have hp : p.validated = false := by simpa using hp
          exact hstays i q (hbest i q hq) (fun h => by rw [hp] at h; cases h)
        · rename_i hp
          have hp : p.validated = true := by simpa using hp
          split at hq
          · cases hq
            refine ⟨hhere, hp, fun r hr hrv => ?_⟩
            rcases List.mem_append.mp hr with hr | hr
            · rw [hnone rfl r hr] at hrv
              cases hrv
            · cases List.mem_singleton.mp hr
              exact Nat.le_refl _
          · rename_i b r
            have hr := hbest b r rfl
            split at hq
            · rename_i hbetter
              cases hq
              refine ⟨hhere, hp, fun r' hr' hrv => ?_⟩
              rcases List.mem_append.mp hr' with hr' | hr'
              · exact Nat.le_trans (hr.2.2 r' hr' hrv) (Nat.le_of_lt hbetter)
              · cases List.mem_singleton.mp hr'
                exact Nat.le_refl _
            · rename_i hworse
              cases hq
              exact hstays i q hr (fun _ => Nat.le_of_not_lt hworse)
      · intro hq r hr
        unfold better at hq
        split at hq
        · rename_i hp
          rcases List.mem_append.mp hr with hr | hr
          · exact hnone hq r hr
          · cases List.mem_singleton.mp hr
            simpa using hp
        · split at hq
          · cases hq
          · split at hq <;> cases hq

/-- The cases of `maybe_nominate`. -/
theorem maybeNominate_cases (s : PunchSession) :
    (s.nominated.isSome = true ∧ s.maybeNominate = s) ∨
    (s.nominated = none ∧ (∀ q ∈ s.pairs, q.validated = false) ∧ s.maybeNominate = s) ∨
    (s.nominated = none ∧ ∃ i p, Best s.pairs i p ∧ s.maybeNominate =
      { s with
        nominated := some i
        nominateAt := none
        state := .nominated
        events := s.events ++ [.nominated p.remote.ep p.txn p.rtt] }) := by
  obtain ⟨hbest, hnone⟩ := bestFrom_spec s.pairs [] none (fun _ _ h => by cases h)
    (fun _ q hq => absurd hq List.not_mem_nil)
  unfold maybeNominate
  cases hnom : s.nominated with
  | some i => exact Or.inl ⟨rfl, rfl⟩
  | none =>
      right
      cases hfound : bestFrom 0 none s.pairs with
      | none => exact Or.inl ⟨rfl, hnone hfound, rfl⟩
      | some ip =>
          obtain ⟨i, p⟩ := ip
          exact Or.inr ⟨rfl, i, p, hbest i p hfound, rfl⟩

theorem maybeNominate_of_none {s : PunchSession} (h : s.maybeNominate.nominated = none) :
    s.maybeNominate = s := by
  rcases maybeNominate_cases s with ⟨-, hsame⟩ | ⟨-, -, hsame⟩ | ⟨-, i, p, -, hnew⟩
  · exact hsame
  · exact hsame
  · rw [hnew] at h
    cases h

/-! ## The calls

Every call prepares, taking at most one reply, and then settles, nominating or
giving up or neither.  `step_turn` says so once for all calls. -/

/-- What the datagram of a call answers, and where it came from. -/
def reply (P : Primitives) (probeKey : Option SymKey) : Op → Option (ProbeTxn × Endpoint)
  | .onDatagram src dgram _ => (answered P probeKey dgram).map (·, src)
  | _ => none

/-- The first half of a call: what it learns, and from which reply. -/
inductive Prepared (s : PunchSession) : Option (ProbeTxn × Endpoint) → PunchSession → Prop where
  | kept {s' : PunchSession} (h : Keeps s s') : Prepared s none s'
  /-- `begin` on some pairs. -/
  | started {s' : PunchSession} (hidle : s.state = .idle) (hstate : s'.state = .probing)
      (hknown : s'.known = s.known) (hkey : s'.probeKey = s.probeKey)
      (hnominated : s'.nominated = s.nominated) (hevents : s'.events = s.events) :
      Prepared s none s'
  /-- No pair has the transaction, or the one that has it answered before. -/
  | stale {txn : ProbeTxn} {src : Endpoint}
      (h : ∀ i p, s.pairs.findIdx? (fun p => p.txn == txn) = some i → s.pairs[i]? = some p →
        p.validated = true) :
      Prepared s (some (txn, src)) s
  /-- The first reply of a pair. -/
  | fresh {txn : ProbeTxn} {src : Endpoint} {i : Nat} {p : Pair} (now : Instant)
      (at_ : Option Instant) (hfind : s.pairs.findIdx? (fun p => p.txn == txn) = some i)
      (hp : s.pairs[i]? = some p) (hnew : p.validated = false) :
      Prepared s (some (txn, src))
        { s with
          pairs := s.pairs.set i (p.answer src now)
          events := s.events ++ [.pathValidated src p.txn (p.answer src now).rtt]
          nominateAt := at_ }

/-- The second half of a call: whether it settles the punch. -/
inductive Settles (s : PunchSession) : PunchSession → Prop where
  | pending : Settles s s
  | nominate : Settles s s.maybeNominate
  | giveUp (hopen : s.state = .idle ∨ s.state = .probing) : Settles s s.giveUp

theorem Settles.nominateIfDue (s : PunchSession) (now : Instant) :
    Settles s (s.nominateIfDue now) := by
  unfold PunchSession.nominateIfDue
  split
  · exact .pending
  · split
    · exact .nominate
    · exact .pending

/-- What is pending after a nomination that found nothing. -/
theorem nominateIfDue_of_none {s : PunchSession} {now : Instant}
    (h : (s.nominateIfDue now).nominated = none) : s.nominateIfDue now = s := by
  unfold PunchSession.nominateIfDue at h ⊢
  split
  · rfl
  · split
    · rename_i ht hdue
      rw [ht] at h
      dsimp only at h
      rw [if_pos hdue] at h
      exact maybeNominate_of_none h
    · rfl

theorem Settles.conclude {s : PunchSession} (hprobing : s.state = .probing) (anyLive : Bool)
    (now : Instant) : Settles s (s.conclude anyLive now) := by
  unfold PunchSession.conclude
  dsimp only
  split
  · rename_i hopen
    have hnone : (s.nominateIfDue now).nominated = none :=
      Option.isNone_iff_eq_none.mp (Bool.and_eq_true_iff.mp hopen).2
    rw [nominateIfDue_of_none hnone]
    split
    · exact .nominate
    · exact .giveUp (Or.inr hprobing)
  · exact .nominateIfDue s now

/-- `on_timeout` goes through the pairs unless the punch is over, and then
settles it or leaves it. -/
theorem onTimeout_visits (P : Primitives) (s : PunchSession) (now : Instant) :
    ∃ s', (s' = s ∨ s.state = .probing ∧ now - s.started < s.cfg.totalTimeout ∧
      s' = s.visited P now) ∧ Settles s' (s.onTimeout P now) := by
  rw [onTimeout_eq]
  split
  · exact ⟨s, Or.inl rfl, .nominateIfDue s now⟩
  · rename_i hprobing
    have hprobing : s.state = .probing := not_not.mp hprobing
    split
    · refine ⟨s, Or.inl rfl, ?_⟩
      split
      · rename_i hnone
        rw [maybeNominate_of_none (Option.isNone_iff_eq_none.mp hnone)]
        exact .giveUp (Or.inr hprobing)
      · exact .nominate
    · rename_i hearly
      refine ⟨_, Or.inr ⟨hprobing, Int.not_le.mp hearly, rfl⟩, ?_⟩
      exact .conclude ((visited_keeps P s now).state.trans hprobing) _ now

theorem onTimeout_turn (P : Primitives) (s : PunchSession) (now : Instant) :
    ∃ s', Keeps s s' ∧ Settles s' (s.onTimeout P now) := by
  obtain ⟨s', hvisits, hsettles⟩ := onTimeout_visits P s now
  refine ⟨s', ?_, hsettles⟩
  rcases hvisits with rfl | ⟨-, -, rfl⟩
  · exact .refl s'
  · exact visited_keeps P s now

theorem begin_turn (P : Primitives) (s : PunchSession) (now : Instant) :
    ∃ s', Prepared s none s' ∧ Settles s' (s.begin P now) := by
  unfold PunchSession.begin
  split
  · exact ⟨s, .kept (.refl s), .pending⟩
  · rename_i hidle
    have hidle : s.state = .idle := not_not.mp hidle
    split
    · exact ⟨{ s with started := now }, .kept ⟨rfl, rfl, rfl, rfl, rfl⟩, .giveUp (Or.inl hidle)⟩
    · obtain ⟨s', hkeeps, hsettles⟩ := onTimeout_turn P (s.schedule now) now
      refine ⟨s', .started hidle hkeeps.state ?_ hkeeps.probeKey hkeeps.nominated hkeeps.events,
        hsettles⟩
      exact hkeeps.known.trans (schedule_known s now)

theorem onProbe_keeps (P : Primitives) (s : PunchSession) (src : Endpoint) (dgram : Bytes)
    (now : Instant) : Keeps s (s.onProbe P src dgram now) := by
  obtain ⟨hknown, -⟩ := onPeerProbe_keeps
    { s with
      txnCounter := incr 32 s.txnCounter
      out := s.out ++ (answerProbe P src dgram s.probeKey s.txnCounter).toList } src now
  exact ⟨hknown, rfl, rfl, rfl, rfl⟩

theorem onProbeOk_turn (s : PunchSession) (src : Endpoint) (txn : ProbeTxn) (now : Instant) :
    ∃ s', Prepared s (some (txn, src)) s' ∧ Settles s' (s.onProbeOk src txn now) := by
  unfold onProbeOk
  split
  · rename_i hnone
    refine ⟨s, .stale ?_, .pending⟩
    intro i p hi
    rw [hnone] at hi
    cases hi
  · rename_i i hi
    split
    · rename_i hnone
      refine ⟨s, .stale ?_, .pending⟩
      intro j p hj hp
      cases hi.symm.trans hj
      rw [hnone] at hp
      cases hp
    · rename_i p hp
      split
      · rename_i hval
        refine ⟨s, .stale ?_, .pending⟩
        intro j q hj hq
        cases hi.symm.trans hj
        cases hp.symm.trans hq
        exact hval
      · rename_i hnew
        have hnew : p.validated = false := Bool.eq_false_iff.mpr hnew
        unfold validate
        dsimp only
        split
        · exact ⟨_, .fresh now s.nominateAt hi hp hnew, .pending⟩
        · split
          · exact ⟨_, .fresh now s.nominateAt hi hp hnew, .nominate⟩
          · split
            · exact ⟨_, .fresh now (some (now + s.cfg.nominationGrace)) hi hp hnew, .pending⟩
            · exact ⟨_, .fresh now s.nominateAt hi hp hnew, .pending⟩

/-- A datagram headed as a probe answers nothing. -/
theorem answered_of_probing {dgram : Bytes} (h : probing dgram = true)
    (probeKey : Option SymKey) : answered P probeKey dgram = none := by
  unfold probing at h
  unfold answered
  split
  · rfl
  · rename_i hd r hdecode
    rw [hdecode] at h
    have htype : hd.type = .probe := beq_iff_eq.mp h
    rw [if_pos]
    rw [htype]
    decide

/-- Every call but the polls learns something at most, and then settles the
punch at most. -/
theorem step_turn (P : Primitives) (s : PunchSession) {op : Op} (hop : op.time.isSome = true) :
    ∃ s', Prepared s (reply P s.probeKey op) s' ∧ Settles s' (s.step P op) := by
  cases op with
  | begin now => exact begin_turn P s now
  | onTimeout now =>
      obtain ⟨s', hkeeps, hsettles⟩ := onTimeout_turn P s now
      exact ⟨s', .kept hkeeps, hsettles⟩
  | onPeerProbe src now => exact ⟨_, .kept (onPeerProbe_keeps s src now), .pending⟩
  | onDatagram src dgram now =>
      simp only [step, onDatagram, reply]
      split
      · rename_i hprobing
        rw [answered_of_probing hprobing]
        exact ⟨_, .kept (onProbe_keeps P s src dgram now), .pending⟩
      · split
        · rename_i hnone
          rw [hnone]
          exact ⟨s, .kept (.refl s), .pending⟩
        · rename_i txn hsome
          rw [hsome]
          exact onProbeOk_turn s src txn now
  | pollTransmit => cases hop
  | pollEvent => cases hop

end PunchSession

end UConnect.Path
