/-
  Path/Nomination.lean --- one path is nominated, and it is the best that
  answered.

  Source: src/path/punch.cpp.

  Five places may nominate and replies come in any order, so the argument is an
  invariant (`Sound`) of the session, of all events it has emitted and of all
  replies it has had: the punch is settled by at most one failure and one
  nomination, in that order, and a pair is validated exactly by the first reply
  to its transaction, whose source is its address.
-/
import UConnect.Path.PunchSteps

set_option autoImplicit false

namespace UConnect.Path

open UConnect.Foundation UConnect.Crypto UConnect.Wire

/-- Does an event settle the punch? -/
def PunchEvent.settling : PunchEvent → Bool
  | .pathValidated _ _ _ => false
  | .nominated _ _ _ => true
  | .failed => true

/-- Is an event a nomination? -/
def PunchEvent.isNominated : PunchEvent → Bool
  | .nominated _ _ _ => true
  | _ => false

/-- The nomination of a pair. -/
def Pair.nomination (p : Pair) : PunchEvent := .nominated p.remote.ep p.txn p.rtt

/-- Where the first reply to a transaction came from. -/
def firstReply (replies : List (ProbeTxn × Endpoint)) (txn : ProbeTxn) : Option Endpoint :=
  (replies.find? fun r => r.1 == txn).map Prod.snd

theorem firstReply_append {replies : List (ProbeTxn × Endpoint)} {txn : ProbeTxn} {src : Endpoint}
    (h : firstReply replies txn = some src) (more : List (ProbeTxn × Endpoint)) :
    firstReply (replies ++ more) txn = some src := by
  obtain ⟨r, hr, hsrc⟩ := Option.map_eq_some_iff.mp h
  rw [firstReply, List.find?_append, hr]
  exact congrArg some hsrc

theorem firstReply_new {replies : List (ProbeTxn × Endpoint)} {txn : ProbeTxn} (src : Endpoint)
    (h : ∀ r ∈ replies, r.1 ≠ txn) : firstReply (replies ++ [(txn, src)]) txn = some src := by
  have hnone : replies.find? (fun r => r.1 == txn) = none :=
    List.find?_eq_none.mpr fun r hr heq => h r hr (beq_iff_eq.mp heq)
  rw [firstReply, List.find?_append, hnone]
  simp

namespace PunchSession

/-! ## The invariant

What is known of each pair is read off the replies it has had, and whether the
punch is settled off the events. -/

/-- The settling events among those handed out and those queued. -/
def settled (handed : List PunchEvent) (s : PunchSession) : List PunchEvent :=
  (handed ++ s.events).filter PunchEvent.settling

/-- The index of the pair a reply to a transaction is for. -/
def owner (pairs : List Pair) (txn : ProbeTxn) : Option Nat :=
  pairs.findIdx? fun p => p.txn == txn

/-- A session in whose life the events `handed` were polled and `replies` came. -/
structure Sound (key : Option SymKey) (handed : List PunchEvent)
    (replies : List (ProbeTxn × Endpoint)) (s : PunchSession) : Prop where
  key : s.probeKey = key
  state : s.state = .nominated ↔ s.nominated.isSome = true
  pending : s.state = .idle ∨ s.state = .probing → settled handed s = []
  failed : s.state = .failed → settled handed s = [.failed]
  nominated : ∀ i, s.nominated = some i → ∃ p, s.known[i]? = some p ∧ p.validated = true ∧
    (settled handed s = [p.nomination] ∨ settled handed s = [.failed, p.nomination])
  first : ∀ p ∈ s.known, p.validated = true → firstReply replies p.txn = some p.remote.ep
  answered : ∀ r ∈ replies, ∀ i p, owner s.known r.1 = some i → s.known[i]? = some p →
    p.validated = true

variable {P : Primitives} {key : Option SymKey} {handed : List PunchEvent}
  {replies : List (ProbeTxn × Endpoint)} {s s' : PunchSession}

theorem owner_known (s : PunchSession) (txn : ProbeTxn) : owner s.known txn = owner s.pairs txn :=
  List.findIdx?_map

/-- A call that changes none of what the invariant speaks of but the state. -/
theorem Sound.congr (h : Sound key handed replies s) (hknown : s'.known = s.known)
    (hkey : s'.probeKey = s.probeKey) (hnominated : s'.nominated = s.nominated)
    (hevents : s'.events = s.events)
    (hstate : s'.state = s.state ∨ s.state = .idle ∧ s'.state = .probing) :
    Sound key handed replies s' := by
  have hsettled : settled handed s' = settled handed s := by rw [settled, settled, hevents]
  refine ⟨hkey.trans h.key, ?_, ?_, ?_, ?_, ?_, ?_⟩
  · rw [hnominated, ← h.state]
    rcases hstate with hstate | ⟨hidle, hprobing⟩
    · rw [hstate]
    · rw [hidle, hprobing]
      exact ⟨nofun, nofun⟩
  · intro hopen
    rw [hsettled]
    refine h.pending ?_
    rcases hstate with hstate | ⟨hidle, -⟩
    · rwa [hstate] at hopen
    · exact Or.inl hidle
  · intro hfailed
    rw [hsettled]
    refine h.failed ?_
    rcases hstate with hstate | ⟨-, hprobing⟩
    · exact hstate.symm.trans hfailed
    · rw [hprobing] at hfailed
      cases hfailed
  · rw [hsettled, hnominated, hknown]
    exact h.nominated
  · rw [hknown]
    exact h.first
  · rw [hknown]
    exact h.answered

theorem Sound.keeps (h : Sound key handed replies s) (hk : Keeps s s') :
    Sound key handed replies s' :=
  h.congr hk.known hk.probeKey hk.nominated hk.events (Or.inl hk.state)

/-- A reply for no pair, or for one that has answered. -/
theorem Sound.stale (h : Sound key handed replies s) {txn : ProbeTxn} {src : Endpoint}
    (hstale : ∀ i p, owner s.pairs txn = some i → s.pairs[i]? = some p → p.validated = true) :
    Sound key handed (replies ++ [(txn, src)]) s where
  key := h.key
  state := h.state
  pending := h.pending
  failed := h.failed
  nominated := h.nominated
  first p hp hval := firstReply_append (h.first p hp hval) _
  answered := by
    intro r hr i p hi hp
    rcases List.mem_append.mp hr with hr | hr
    · exact h.answered r hr i p hi hp
    · cases List.mem_singleton.mp hr
      rw [known, List.getElem?_map] at hp
      obtain ⟨q, hq, rfl⟩ := Option.map_eq_some_iff.mp hp
      rw [owner_known] at hi
      exact hstale i q hi hq

/-- The transactions stay where they are. -/
theorem owner_set {pairs : List Pair} {i : Nat} {p p' : Pair} (hp : pairs[i]? = some p)
    (htxn : p'.txn = p.txn) (txn : ProbeTxn) : owner (pairs.set i p') txn = owner pairs txn := by
  have hmap : (pairs.set i p').map Pair.txn = pairs.map Pair.txn := by
    rw [List.map_set, htxn]
    obtain ⟨hlt, hget⟩ := List.getElem?_eq_some_iff.mp hp
    refine List.ext_getElem? fun j => ?_
    by_cases hij : i = j
    · subst hij
      simp [hlt, hget]
    · rw [List.getElem?_set_ne hij]
  have hcomp : ∀ l : List Pair, owner l txn = (l.map Pair.txn).findIdx? (· == txn) := by
    intro l
    rw [List.findIdx?_map]
    rfl
  rw [hcomp, hcomp, hmap]

/-- The first reply for a pair. -/
theorem Sound.fresh (h : Sound key handed replies s) {txn : ProbeTxn} {src : Endpoint} {i : Nat}
    {p : Pair} (now : Instant) (at_ : Option Instant) (hfind : owner s.pairs txn = some i)
    (hp : s.pairs[i]? = some p) (hnew : p.validated = false) :
    Sound key handed (replies ++ [(txn, src)])
      { s with
        pairs := s.pairs.set i (p.answer src now)
        events := s.events ++ [.pathValidated src p.txn (p.answer src now).rtt]
        nominateAt := at_ } := by
  have hlt := (List.getElem?_eq_some_iff.mp hp).1
  have hcore : s.known[i]? = some p.core := by
    rw [known, List.getElem?_map, hp]
    rfl
  have hknown : (s.pairs.set i (p.answer src now)).map Pair.core =
      s.known.set i (p.answer src now).core := List.map_set
  have howner : ∀ t, owner (s.known.set i (p.answer src now).core) t = owner s.known t :=
    owner_set hcore rfl
  have htxn : p.txn = txn := by
    obtain ⟨hlt', heq, -⟩ := List.findIdx?_eq_some_iff_getElem.mp hfind
    have hget := (List.getElem?_eq_some_iff.mp hp).2
    rw [hget] at heq
    exact beq_iff_eq.mp heq
  have hsettled : ∀ e : PunchEvent, e.settling = false →
      (handed ++ (s.events ++ [e])).filter PunchEvent.settling = settled handed s := by
    intro e he
    rw [← List.append_assoc, List.filter_append, settled]
    simp [he]
  have hnone : ∀ r ∈ replies, r.1 ≠ txn := by
    rintro r hr rfl
    have hval := h.answered r hr i p.core ((owner_known s r.1).trans hfind) hcore
    rw [Pair.core_validated, hnew] at hval
    cases hval
  refine ⟨h.key, h.state, ?_, ?_, ?_, ?_, ?_⟩
  · intro hopen
    exact (hsettled _ rfl).trans (h.pending hopen)
  · intro hfailed
    exact (hsettled _ rfl).trans (h.failed hfailed)
  · intro j hj
    obtain ⟨q, hq, hval, hforms⟩ := h.nominated j hj
    have hne : i ≠ j := by
      rintro rfl
      cases hcore.symm.trans hq
      rw [Pair.core_validated, hnew] at hval
      cases hval
    refine ⟨q, ?_, hval, ?_⟩
    · rw [known, hknown, List.getElem?_set_ne hne]
      exact hq
    · rw [settled, hsettled _ rfl]
      exact hforms
  · intro q hq hval
    rw [known, hknown] at hq
    rcases List.mem_or_eq_of_mem_set hq with hq | rfl
    · exact firstReply_append (h.first q hq hval) _
    · rw [Pair.core_txn, Pair.core_remote]
      have hsame : (p.answer src now).txn = txn := htxn
      rw [hsame]
      exact firstReply_new src hnone
  · intro r hr j q hj hq
    rw [known, hknown] at hj hq
    rw [howner] at hj
    by_cases hij : i = j
    · subst hij
      rw [List.getElem?_set_self (by rw [known, List.length_map]; exact hlt)] at hq
      cases hq
      rfl
    · rw [List.getElem?_set_ne hij] at hq
      rcases List.mem_append.mp hr with hr | hr
      · exact h.answered r hr j q hj hq
      · -- the new reply is for the pair just validated
        cases List.mem_singleton.mp hr
        rw [owner_known, hfind] at hj
        exact absurd (Option.some.inj hj) hij

theorem Sound.prepared (h : Sound key handed replies s) {r : Option (ProbeTxn × Endpoint)}
    (hp : Prepared s r s') : Sound key handed (replies ++ r.toList) s' := by
  cases hp with
  | kept hk =>
      rw [Option.toList_none, List.append_nil]
      exact h.keeps hk
  | started hidle hstate hknown hkey hnominated hevents =>
      rw [Option.toList_none, List.append_nil]
      exact h.congr hknown hkey hnominated hevents (Or.inr ⟨hidle, hstate⟩)
  | stale hstale => exact h.stale hstale
  | fresh now at_ hfind hp hnew => exact h.fresh now at_ hfind hp hnew

theorem settled_append (handed : List PunchEvent) (s : PunchSession) {e : PunchEvent}
    (he : e.settling = true) :
    (handed ++ (s.events ++ [e])).filter PunchEvent.settling = settled handed s ++ [e] := by
  rw [← List.append_assoc, List.filter_append, settled]
  simp [he]

/-- Before the nomination nothing was settled but a failure. -/
theorem Sound.settled_of_none (h : Sound key handed replies s) (hnone : s.nominated = none) :
    settled handed s = [] ∨ settled handed s = [.failed] := by
  cases hstate : s.state with
  | idle => exact Or.inl (h.pending (Or.inl hstate))
  | probing => exact Or.inl (h.pending (Or.inr hstate))
  | failed => exact Or.inr (h.failed hstate)
  | nominated =>
      have hsome := h.state.mp hstate
      rw [hnone] at hsome
      cases hsome

theorem Sound.settles (h : Sound key handed replies s) (hs : Settles s s') :
    Sound key handed replies s' := by
  cases hs with
  | pending => exact h
  | nominate =>
      rcases maybeNominate_cases s with ⟨-, hsame⟩ | ⟨-, -, hsame⟩ | ⟨hnone, i, p, hbest, hnew⟩
      · rw [hsame]
        exact h
      · rw [hsame]
        exact h
      · rw [hnew]
        refine ⟨h.key, ⟨fun _ => rfl, fun _ => rfl⟩, ?_, nofun, ?_, h.first, h.answered⟩
        · rintro (hopen | hopen) <;> cases hopen
        · intro j hj
          cases hj
          refine ⟨p.core, ?_, hbest.2.1, ?_⟩
          · rw [known, List.getElem?_map, hbest.1]
            rfl
          · rw [settled, settled_append handed s rfl]
            rcases h.settled_of_none hnone with hempty | hfailed
            · rw [hempty]
              exact Or.inl rfl
            · rw [hfailed]
              exact Or.inr rfl
  | giveUp hopen =>
      have hnone : s.nominated = none := by
        cases hnom : s.nominated with
        | none => rfl
        | some i =>
            have hstate := h.state.mpr (by rw [hnom]; rfl)
            rw [hstate] at hopen
            rcases hopen with hopen | hopen <;> cases hopen
      refine ⟨h.key, ?_, ?_, ?_, ?_, h.first, h.answered⟩
      · rw [giveUp, hnone]
        exact ⟨nofun, nofun⟩
      · rintro (hopen | hopen) <;> cases hopen
      · intro _
        rw [settled, giveUp, settled_append handed s rfl, h.pending hopen]
        rfl
      · intro i hi
        rw [giveUp, hnone] at hi
        cases hi

/-- Every call keeps the invariant. -/
theorem Sound.step (h : Sound key handed replies s) (op : Op) :
    Sound key (handed ++ polled s op) (replies ++ (reply P key op).toList) (s.step P op) := by
  by_cases hop : op.time.isSome = true
  · obtain ⟨s', hprepared, hsettles⟩ := step_turn P s hop
    have hpolled : polled s op = [] := by
      cases op with
      | pollEvent => cases hop
      | _ => rfl
    rw [h.key] at hprepared
    rw [hpolled, List.append_nil]
    exact (h.prepared hprepared).settles hsettles
  · cases op with
    | pollTransmit =>
        have hkeeps : Keeps s (s.step P .pollTransmit) := by
          simp only [PunchSession.step, pollTransmit]
          split
          · exact .refl s
          · exact ⟨rfl, rfl, rfl, rfl, rfl⟩
        simp only [polled, reply, Option.toList_none, List.append_nil]
        exact h.keeps hkeeps
    | pollEvent =>
        simp only [reply, Option.toList_none, List.append_nil, PunchSession.step, polled, pollEvent]
        split
        · rw [Option.toList_none, List.append_nil]
          exact h
        · rename_i e rest hevents
          have hsettled : ∀ t : PunchSession, t.events = rest →
              settled (handed ++ [e]) t = settled handed s := by
            intro t ht
            rw [settled, settled, ht, hevents, List.append_assoc]
            rfl
          refine ⟨h.key, h.state, ?_, ?_, ?_, h.first, h.answered⟩
          · intro hopen
            exact (hsettled _ rfl).trans (h.pending hopen)
          · intro hfailed
            exact (hsettled _ rfl).trans (h.failed hfailed)
          · intro i hi
            rw [Option.toList_some, hsettled _ rfl]
            exact h.nominated i hi
    | _ => exact absurd rfl hop

theorem Sound.run (h : Sound key handed replies s) (ops : List Op) :
    Sound key (handed ++ trace polled (PunchSession.step P) s ops)
      (replies ++ ops.filterMap (reply P key)) (Foundation.run (PunchSession.step P) s ops) := by
  induction ops generalizing s handed replies with
  | nil =>
      rw [trace, List.filterMap_nil, List.append_nil, List.append_nil]
      exact h
  | cons op ops ih =>
      have hrest := ih (h.step (P := P) op)
      rw [List.append_assoc, List.append_assoc] at hrest
      have hreplies : (op :: ops).filterMap (reply P key) =
          (reply P key op).toList ++ ops.filterMap (reply P key) := by
        rw [List.filterMap_cons]
        cases reply P key op with
        | none => rfl
        | some r => rfl
      rw [trace, hreplies, run_cons]
      exact hrest

theorem sound_created (h : Created s) : Sound s.probeKey [] [] s := by
  obtain ⟨cfg, probeKey, ourSrflx, remoteCands, txns, jitter, pairs, hperm, -⟩ := h
  have hfresh : ∀ p ∈ pairs.map Pair.core, p.validated = false := by
    intro p hp
    obtain ⟨q, hq, rfl⟩ := List.mem_map.mp hp
    obtain ⟨x, -, rfl⟩ := List.mem_map.mp (hperm.mem_iff.mp hq)
    rfl
  refine ⟨rfl, ⟨nofun, nofun⟩, fun _ => rfl, nofun, nofun, ?_, ?_⟩
  · intro p hp hval
    rw [hfresh p hp] at hval
    cases hval
  · intro r hr
    cases hr

/-! ## What a nomination leaves alone

Nothing changes it: later replies add to what is known and do not pick again. -/

/-- A nominated pair stays nominated and as it is. -/
theorem Sound.nominated_step (h : Sound key handed replies s) (op : Op) {i : Nat} {p : Pair}
    (hi : s.nominated = some i) (hp : s.known[i]? = some p) :
    (s.step P op).nominated = some i ∧ (s.step P op).known[i]? = some p := by
  have hstate : s.state = .nominated := h.state.mpr (by rw [hi]; rfl)
  have hval : p.validated = true := by
    obtain ⟨q, hq, hval, -⟩ := h.nominated i hi
    cases hp.symm.trans hq
    exact hval
  by_cases hop : op.time.isSome = true
  · obtain ⟨s', hprepared, hsettles⟩ := step_turn P s hop
    generalize s.step P op = t at hsettles ⊢
    have hmid : s'.nominated = some i ∧ s'.known[i]? = some p ∧ s'.state = .nominated := by
      generalize reply P s.probeKey op = r at hprepared
      cases hprepared with
      | kept hk => exact ⟨hk.nominated.trans hi, hk.known ▸ hp, hk.state.trans hstate⟩
      | started hidle =>
          rw [hstate] at hidle
          cases hidle
      | stale => exact ⟨hi, hp, hstate⟩
      | @fresh txn src j q now at_ hfind hq hnew =>
          refine ⟨hi, ?_, hstate⟩
          have hne : j ≠ i := by
            rintro rfl
            rw [known, List.getElem?_map, hq] at hp
            cases hp
            rw [Pair.core_validated, hnew] at hval
            cases hval
          rw [known, List.map_set, List.getElem?_set_ne hne]
          exact hp
    obtain ⟨hi', hp', hstate'⟩ := hmid
    cases hsettles with
    | pending => exact ⟨hi', hp'⟩
    | nominate =>
        have hsame : s'.maybeNominate = s' := by
          rw [maybeNominate, hi']
          rfl
        rw [hsame]
        exact ⟨hi', hp'⟩
    | giveUp hopen =>
        rw [hstate'] at hopen
        rcases hopen with hopen | hopen <;> cases hopen
  · cases op with
    | pollTransmit =>
        simp only [PunchSession.step, pollTransmit]
        split <;> exact ⟨hi, hp⟩
    | pollEvent =>
        simp only [PunchSession.step, pollEvent]
        split <;> exact ⟨hi, hp⟩
    | _ => exact absurd rfl hop

theorem Sound.nominated_run (h : Sound key handed replies s) (ops : List Op) {i : Nat} {p : Pair}
    (hi : s.nominated = some i) (hp : s.known[i]? = some p) :
    (Foundation.run (PunchSession.step P) s ops).nominated = some i ∧
      (Foundation.run (PunchSession.step P) s ops).known[i]? = some p := by
  induction ops generalizing s handed replies with
  | nil => exact ⟨hi, hp⟩
  | cons op ops ih =>
      obtain ⟨hi', hp'⟩ := h.nominated_step (P := P) op hi hp
      exact ih (h.step op) hi' hp'

/-- What the accessors say of the nominated pair. -/
theorem nominatedPath_eq {i : Nat} {p : Pair} (hi : s.nominated = some i)
    (hp : s.known[i]? = some p) :
    s.nominatedPath = some p.remote.ep ∧ s.nominatedTxn = some p.txn := by
  rw [known, List.getElem?_map] at hp
  obtain ⟨q, hq, rfl⟩ := Option.map_eq_some_iff.mp hp
  unfold nominatedPath nominatedTxn
  rw [hi, Option.bind_some, hq]
  exact ⟨rfl, rfl⟩

/-- A call that nominates picks the best of the pairs that have answered by
then. -/
theorem nominating_step (P : Primitives) (s : PunchSession) (op : Op) {i : Nat}
    (hnone : s.nominated = none) (hi : (s.step P op).nominated = some i) :
    ∃ p, Best (s.step P op).pairs i p := by
  by_cases hop : op.time.isSome = true
  · obtain ⟨s', hprepared, hsettles⟩ := step_turn P s hop
    have hmid : s'.nominated = none := by
      generalize reply P s.probeKey op = r at hprepared
      cases hprepared with
      | kept hk => exact hk.nominated.trans hnone
      | started hidle hstate hknown hkey hnominated hevents => exact hnominated.trans hnone
      | stale => exact hnone
      | fresh => exact hnone
    generalize s.step P op = t at hi hsettles ⊢
    cases hsettles with
    | pending =>
        rw [hmid] at hi
        cases hi
    | nominate =>
        rcases maybeNominate_cases s' with ⟨-, hsame⟩ | ⟨-, -, hsame⟩ | ⟨-, j, p, hbest, hnew⟩
        · rw [hsame, hmid] at hi
          cases hi
        · rw [hsame, hmid] at hi
          cases hi
        · rw [hnew] at hi ⊢
          cases hi
          exact ⟨p, hbest⟩
    | giveUp =>
        rw [giveUp, hmid] at hi
        cases hi
  · exfalso
    cases op with
    | pollTransmit =>
        simp only [PunchSession.step, pollTransmit] at hi
        split at hi <;> · rw [hnone] at hi; cases hi
    | pollEvent =>
        simp only [PunchSession.step, pollEvent] at hi
        split at hi <;> · rw [hnone] at hi; cases hi
    | _ => exact absurd rfl hop

/-! ## Whole runs

The invariant, from the session as it was created. -/

/-- The settling events of a life are a failure and a nomination, either
optional. -/
theorem Sound.forms (h : Sound key handed replies s) :
    settled handed s = [] ∨ settled handed s = [.failed] ∨
      ∃ i p, s.nominated = some i ∧ s.known[i]? = some p ∧
        (settled handed s = [p.nomination] ∨ settled handed s = [.failed, p.nomination]) := by
  cases hnom : s.nominated with
  | none =>
      rcases h.settled_of_none hnom with hempty | hfailed
      · exact Or.inl hempty
      · exact Or.inr (Or.inl hfailed)
  | some i =>
      obtain ⟨p, hp, -, hforms⟩ := h.nominated i hnom
      exact Or.inr (Or.inr ⟨i, p, rfl, hp, hforms⟩)

theorem Sound.at_most_one (h : Sound key handed replies s) :
    (handed ++ s.events).countP PunchEvent.isNominated ≤ 1 ∧
      (handed ++ s.events).countP (· == .failed) ≤ 1 ∧
      ∀ path txn rtt, ¬ [.nominated path txn rtt, .failed].Sublist (handed ++ s.events) := by
  have hcount : ∀ q : PunchEvent → Bool, (∀ e, q e = true → e.settling = true) →
      (handed ++ s.events).countP q = (settled handed s).countP q := by
    intro q hq
    rw [settled, List.countP_filter]
    refine List.countP_congr fun e _ => ?_
    constructor
    · intro he
      rw [he, hq e he]
      rfl
    · intro he
      exact (Bool.and_eq_true_iff.mp he).1
  rw [hcount PunchEvent.isNominated (fun e he => by cases e <;> first | rfl | cases he),
    hcount (· == .failed) (fun e he => by rw [beq_iff_eq.mp he]; rfl)]
  have hsub : ∀ path txn rtt,
      [.nominated path txn rtt, .failed].Sublist (handed ++ s.events) →
        [.nominated path txn rtt, .failed].Sublist (settled handed s) :=
    fun _ _ _ hs => hs.filter PunchEvent.settling
  -- in each form a nomination is the last event, and there are two at most
  rcases h.forms with hform | hform | ⟨-, p, -, -, hform | hform⟩ <;> rw [hform] at hsub ⊢ <;>
    refine ⟨by simp [PunchEvent.isNominated, Pair.nomination],
      by simp [Pair.nomination], fun path txn rtt hs => ?_⟩ <;>
    cases (hsub path txn rtt hs).eq_of_length_le (by simp)

/-- A nomination that was emitted is that of the nominated pair. -/
theorem Sound.nomination_mem (h : Sound key handed replies s) {path : Endpoint} {txn : ProbeTxn}
    {rtt : Duration} (hmem : .nominated path txn rtt ∈ handed ++ s.events) :
    ∃ i p, s.nominated = some i ∧ s.known[i]? = some p ∧ p.remote.ep = path ∧ p.txn = txn ∧
      p.rtt = rtt := by
  have hmem : .nominated path txn rtt ∈ settled handed s := List.mem_filter.mpr ⟨hmem, rfl⟩
  rcases h.forms with hform | hform | ⟨i, p, hi, hp, hform | hform⟩ <;> rw [hform] at hmem
  · cases hmem
  · cases List.mem_singleton.mp hmem
  · have heq := List.mem_singleton.mp hmem
    cases heq
    exact ⟨i, p, hi, hp, rfl, rfl, rfl⟩
  · rcases List.mem_cons.mp hmem with heq | hmem
    · cases heq
    · have heq := List.mem_singleton.mp hmem
      cases heq
      exact ⟨i, p, hi, hp, rfl, rfl, rfl⟩

/-- The nomination of the nominated pair was emitted. -/
theorem Sound.mem_nomination (h : Sound key handed replies s) {i : Nat} {p : Pair}
    (hi : s.nominated = some i) (hp : s.known[i]? = some p) :
    p.nomination ∈ handed ++ s.events := by
  obtain ⟨q, hq, -, hform⟩ := h.nominated i hi
  cases hp.symm.trans hq
  have hmem : p.nomination ∈ settled handed s := by
    rcases hform with hform | hform <;> rw [hform] <;> simp
  exact (List.mem_filter.mp hmem).1

theorem Sound.no_nomination (h : Sound key handed replies s) (hnone : s.nominated = none) :
    (handed ++ s.events).countP PunchEvent.isNominated = 0 := by
  rw [List.countP_eq_zero]
  intro e he hnom
  cases e with
  | nominated path txn rtt =>
      obtain ⟨i, -, hi, -⟩ := h.nomination_mem he
      rw [hnone] at hi
      cases hi
  | pathValidated => cases hnom
  | failed => cases hnom

/-- A run of a new session, with all it emitted and all replies it had. -/
theorem sound_run (P : Primitives) (hs : Created s) (ops : List Op) :
    Sound s.probeKey (trace polled (step P) s ops) (ops.filterMap (reply P s.probeKey))
      (run (step P) s ops) := by
  have hrun := (sound_created hs).run (P := P) ops
  rw [List.nil_append, List.nil_append] at hrun
  exact hrun

/-- One nomination at most is made over the life of a session, and one failure
at most before it.  A call that nominates reports a pair with the highest
priority among those that have answered; its path is the source of the first
reply to its transaction, a `ProbeOk` with a valid tag where the session has a
key; and path and transaction are what the accessors return from then on. -/
theorem nomination (hs : Created s) (ops : List Op) :
    (emitted P s ops).countP PunchEvent.isNominated ≤ 1 ∧
    (emitted P s ops).countP (· == .failed) ≤ 1 ∧
    (∀ path txn rtt, ¬ [.nominated path txn rtt, .failed].Sublist (emitted P s ops)) ∧
    ∀ path txn rtt, .nominated path txn rtt ∈ emitted P s ops →
      ∃ xs op ys, ops = xs ++ op :: ys ∧
        (emitted P s xs).countP PunchEvent.isNominated = 0 ∧
        .nominated path txn rtt ∈ emitted P s (xs ++ [op]) ∧
        (∃ i p, (run (step P) s (xs ++ [op])).nominated = some i ∧
          Best (run (step P) s (xs ++ [op])).pairs i p ∧ p.remote.ep = path ∧ p.txn = txn) ∧
        firstReply ((xs ++ [op]).filterMap (reply P s.probeKey)) txn = some path ∧
        ∀ more, (run (step P) s (xs ++ [op] ++ more)).nominatedPath = some path ∧
          (run (step P) s (xs ++ [op] ++ more)).nominatedTxn = some txn := by
  have hsound := sound_run P hs
  obtain ⟨hone, hfailed, horder⟩ := (hsound ops).at_most_one
  refine ⟨hone, hfailed, horder, ?_⟩
  intro path txn rtt hmem
  obtain ⟨i, p, hi, hp, rfl, rfl, rfl⟩ := (hsound ops).nomination_mem hmem
  have hinit : ¬ s.nominated.isSome = true := by
    obtain ⟨⟩ := hs
    exact nofun
  have hlast : (run (step P) s ops).nominated.isSome = true := by
    rw [hi]
    rfl
  obtain ⟨xs, op, ys, rfl, hbefore, hafter⟩ :=
    run_turns (Q := fun s : PunchSession => s.nominated.isSome = true) hinit hlast
  have hbefore : (run (step P) s xs).nominated = none := by simpa using hbefore
  obtain ⟨j, hj⟩ := Option.isSome_iff_exists.mp hafter
  have hmoment := hsound (xs ++ [op])
  -- the pair nominated at this call is the one nominated in the end
  obtain ⟨q, hq, hval, -⟩ := hmoment.nominated j hj
  have hlater : ∀ more, (run (step P) s (xs ++ [op] ++ more)).nominated = some j ∧
      (run (step P) s (xs ++ [op] ++ more)).known[j]? = some q := by
    intro more
    rw [run_append]
    exact hmoment.nominated_run more hj hq
  have hsplit : xs ++ op :: ys = xs ++ [op] ++ ys := by
    rw [List.append_assoc]
    rfl
  rw [hsplit] at hi hp
  cases (hlater ys).1.symm.trans hi
  cases (hlater ys).2.symm.trans hp
  refine ⟨xs, op, ys, rfl, (hsound xs).no_nomination hbefore, hmoment.mem_nomination hj hq, ?_,
    hmoment.first p (List.mem_of_getElem? hq) hval, ?_⟩
  · rw [run_append] at hj hq ⊢
    obtain ⟨q', hbest⟩ := nominating_step P (run (step P) s xs) op hbefore hj
    have hcore : some q'.core = some p := by
      rw [← hq, known, List.getElem?_map, run_cons, run_nil, hbest.1]
      rfl
    cases hcore
    exact ⟨i, q', hj, hbest, rfl, rfl⟩
  · intro more
    exact nominatedPath_eq (hlater more).1 (hlater more).2

/-- An address in the documentation range. -/
def sampleEndpoint (host : UInt8) : Endpoint :=
  { ip := { bytes := copyInto 16 [198, 51, 100, host] }, port := 40000 }

/-- A keyed session with a host and a relay candidate. -/
def sampleSession : PunchSession where
  cfg := {}
  probeKey := some (Vector.replicate 32 9)
  pairs := newPairs none
    [{ kind := .host, ep := sampleEndpoint 1 }, { kind := .relay, ep := sampleEndpoint 2 }]
    (fun i => Vector.replicate 16 (UInt8.ofNat (i + 1)))
  jitter := fun _ => 0

/-- The reply to the first pair, under the session's key. -/
def sampleReply : Bytes :=
  let txn := Vector.replicate 16 1
  encodeProbeOk txn (sampleEndpoint 7)
    (probeTag Primitives.checksum (some (Vector.replicate 32 9)) txn true) 5

theorem sampleSession_created : Created sampleSession :=
  .mk {} _ none _ _ _ _ (List.Perm.refl _) (by decide)

/-- The reply comes from another port than the candidate's, and that path is
nominated. -/
theorem nomination_sample :
    let ops : List Op := [.begin 0, .onDatagram (sampleEndpoint 3) sampleReply 5000000]
    let txn : ProbeTxn := Vector.replicate 16 1
    ∃ xs op ys, ops = xs ++ op :: ys ∧
      firstReply ((xs ++ [op]).filterMap (reply Primitives.checksum sampleSession.probeKey)) txn =
        some (sampleEndpoint 3) := by
  intro ops txn
  have hmem : .nominated (sampleEndpoint 3) txn 5000000 ∈
      emitted Primitives.checksum sampleSession ops := by decide +kernel
  obtain ⟨xs, op, ys, hops, -, -, -, hfirst, -⟩ :=
    (nomination (P := Primitives.checksum) sampleSession_created ops).2.2.2 _ _ _ hmem
  exact ⟨xs, op, ys, hops, hfirst⟩

end PunchSession

end UConnect.Path
