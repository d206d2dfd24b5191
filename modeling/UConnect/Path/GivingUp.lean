/-
  Path/GivingUp.lean --- when a punch is given up.

  Source: src/path/punch.cpp, `on_timeout` and `begin`.

  `emit_probe` schedules a wait behind every probe, the last one of a pair
  included, but `on_timeout` marks a pair as exhausted at its next call, whether
  that wait is over or not: with one call too early the punch fails with a probe
  in flight.  Where no call comes while a pair that has used its attempts still
  waits (`Waited`), a punch fails at the total timeout only, or when every pair
  has used its attempts and waited.
-/
import UConnect.Path.Nomination

set_option autoImplicit false

namespace UConnect.Path

open UConnect.Foundation UConnect.Crypto UConnect.Wire

namespace PunchSession

variable {P : Primitives} {s s' : PunchSession}

/-! ## Failures

The failures among events, and the only two places that add one. -/

/-- The failures among the queued events. -/
def failures (events : List PunchEvent) : Nat := events.countP (· == .failed)

theorem failures_append (xs ys : List PunchEvent) :
    failures (xs ++ ys) = failures xs + failures ys := List.countP_append

/-- Settling a punch leaves pairs, clock and configuration alone, and emits a
failure only by giving up. -/
theorem Settles.frame (h : Settles s s') :
    s'.pairs = s.pairs ∧ s'.started = s.started ∧ s'.cfg = s.cfg := by
  cases h with
  | pending => exact ⟨rfl, rfl, rfl⟩
  | nominate =>
      rcases maybeNominate_cases s with ⟨-, hsame⟩ | ⟨-, -, hsame⟩ | ⟨-, i, p, -, hnew⟩
      · rw [hsame]
        exact ⟨rfl, rfl, rfl⟩
      · rw [hsame]
        exact ⟨rfl, rfl, rfl⟩
      · rw [hnew]
        exact ⟨rfl, rfl, rfl⟩
  | giveUp => exact ⟨rfl, rfl, rfl⟩

theorem failures_maybeNominate (s : PunchSession) :
    failures s.maybeNominate.events = failures s.events := by
  rcases maybeNominate_cases s with ⟨-, hsame⟩ | ⟨-, -, hsame⟩ | ⟨-, i, p, -, hnew⟩
  · rw [hsame]
  · rw [hsame]
  · rw [hnew, failures_append]
    rfl

theorem failures_nominateIfDue (s : PunchSession) (now : Instant) :
    failures (s.nominateIfDue now).events = failures s.events := by
  unfold nominateIfDue
  split
  · rfl
  · split
    · exact failures_maybeNominate s
    · rfl

/-- After the loop a punch fails only if the loop met no live pair and none has
answered. -/
theorem conclude_fails {anyLive : Bool} {now : Instant}
    (h : failures s.events < failures (s.conclude anyLive now).events) :
    anyLive = false ∧ ∀ p ∈ s.pairs, p.validated = false := by
  unfold conclude at h
  dsimp only at h
  split at h
  · rename_i hopen
    obtain ⟨hlive, hnone⟩ := Bool.and_eq_true_iff.mp hopen
    rw [nominateIfDue_of_none (Option.isNone_iff_eq_none.mp hnone)] at h
    split at h
    · rw [failures_maybeNominate] at h
      exact absurd h (Nat.lt_irrefl _)
    · rename_i hany
      refine ⟨by simpa using hlive, ?_⟩
      intro p hp
      by_contra hval
      exact hany (List.any_eq_true.mpr ⟨p, hp, by simpa using hval⟩)
  · rw [failures_nominateIfDue] at h
    exact absurd h (Nat.lt_irrefl _)

/-- `on_timeout` fails at the total timeout, or after a loop without live pairs. -/
theorem onTimeout_fails {now : Instant}
    (h : failures s.events < failures (s.onTimeout P now).events) :
    s.state = .probing ∧
      (s.cfg.totalTimeout ≤ now - s.started ∨
        (now - s.started < s.cfg.totalTimeout ∧ (visitAll P now s s.pairs).2.2 = false ∧
          ∀ p ∈ (s.visited P now).pairs, p.validated = false)) := by
  rw [onTimeout_eq] at h
  split at h
  · rw [failures_nominateIfDue] at h
    exact absurd h (Nat.lt_irrefl _)
  · rename_i hprobing
    refine ⟨not_not.mp hprobing, ?_⟩
    split at h
    · rename_i hlate
      exact Or.inl hlate
    · rename_i hearly
      rw [← (visited_keeps P s now).events] at h
      exact Or.inr ⟨Int.not_le.mp hearly, conclude_fails h⟩

/-! ## The loop and the waits

A pair is marked when its attempts are used up; whether its last wait was over
is a question of when the call came. -/

/-- A pair given up on has used its attempts, and its last wait is over at the
times still to come. -/
def Spent (max : Int) (future : List Instant) (p : Pair) : Prop :=
  p.exhausted = true → max ≤ p.attempts ∧ ∀ u ∈ future, p.nextSend ≤ u

/-- A pair that has used its attempts has waited, or is not waited for. -/
def WaitOver (max : Int) (now : Instant) (p : Pair) : Prop :=
  p.validated = false → p.exhausted = false → max ≤ p.attempts → p.nextSend ≤ now

instance (max : Int) (now : Instant) (p : Pair) : Decidable (WaitOver max now p) :=
  inferInstanceAs (Decidable (_ → _ → _ → _))

/-- What the loop body makes of a pair that has waited: it is live, or has
answered, or is spent. -/
theorem visit_spent {p : Pair} {now : Instant} {future : List Instant}
    (hfuture : ∀ u ∈ future, now ≤ u) (hspent : Spent s.cfg.maxAttemptsPerPair (now :: future) p)
    (hwait : WaitOver s.cfg.maxAttemptsPerPair now p) :
    Spent s.cfg.maxAttemptsPerPair (now :: future) (s.visit P p now).2.1 ∧
      ((s.visit P p now).2.2 = false → (s.visit P p now).2.1.validated = false →
        (s.visit P p now).2.1.exhausted = true) := by
  rcases visit_cases P s p now with
    ⟨hdone, h⟩ | ⟨hval, hexh, ⟨hused, h⟩ | ⟨hleft, ⟨-, h⟩ | ⟨-, h⟩⟩⟩ <;> rw [h]
  · refine ⟨hspent, fun _ hval => ?_⟩
    rcases hdone with hdone | hdone
    · rw [hdone] at hval
      cases hval
    · exact hdone
  · refine ⟨fun _ => ⟨hused, ?_⟩, fun _ _ => rfl⟩
    have hover := hwait hval hexh hused
    intro u hu
    rcases List.mem_cons.mp hu with rfl | hu
    · exact hover
    · exact Int.le_trans hover (hfuture u hu)
  · refine ⟨fun hnew => ?_, nofun⟩
    have hnew : p.exhausted = true := hnew
    rw [hexh] at hnew
    cases hnew
  · exact ⟨hspent, nofun⟩

theorem cfg_visit (P : Primitives) (s : PunchSession) (p : Pair) (now : Instant) :
    (s.visit P p now).1.cfg = s.cfg := by
  obtain ⟨hvisit, -⟩ := visit_keeps P s p now
  rw [hvisit]

theorem visitAll_spent {ps : List Pair} {now : Instant} {future : List Instant}
    (hfuture : ∀ u ∈ future, now ≤ u)
    (hspent : ∀ p ∈ ps, Spent s.cfg.maxAttemptsPerPair (now :: future) p)
    (hwait : ∀ p ∈ ps, WaitOver s.cfg.maxAttemptsPerPair now p) :
    ∀ p ∈ (visitAll P now s ps).2.1, Spent s.cfg.maxAttemptsPerPair (now :: future) p ∧
      ((visitAll P now s ps).2.2 = false → p.validated = false → p.exhausted = true) := by
  induction ps generalizing s with
  | nil => exact fun p hp => absurd hp List.not_mem_nil
  | cons p ps ih =>
      intro q hq
      rw [visitAll_cons] at hq ⊢
      obtain ⟨hhead, hdead⟩ :=
        visit_spent (P := P) hfuture (hspent p List.mem_cons_self) (hwait p List.mem_cons_self)
      rcases List.mem_cons.mp hq with rfl | hq
      · refine ⟨hhead, fun hlive => hdead ?_⟩
        exact (Bool.or_eq_false_iff.mp hlive).1
      · have hcfg := cfg_visit P s p now
        rw [← hcfg] at hspent hwait
        obtain ⟨hrest, hdead'⟩ := ih (fun q hq => hspent q (List.mem_cons_of_mem _ hq))
          (fun q hq => hwait q (List.mem_cons_of_mem _ hq)) q hq
        rw [hcfg] at hrest
        exact ⟨hrest, fun hlive => hdead' (Bool.or_eq_false_iff.mp hlive).2⟩

/-! ## Calls that come in time

The condition on a run, and what it says of every pair at any time in it. -/

/-- No pair that has used its attempts still waits when the call comes.  At
`begin` no pair has: the call is in time unless pairs are allowed no attempt and
wait for their turn. -/
def Waited (s : PunchSession) : Op → Prop
  | .onTimeout now => s.state = .probing → now - s.started < s.cfg.totalTimeout →
      ∀ p ∈ s.pairs, WaitOver s.cfg.maxAttemptsPerPair now p
  | .begin _ => s.state = .idle → 0 < s.cfg.totalTimeout →
      0 < s.cfg.maxAttemptsPerPair ∨ s.pairs.length ≤ 1 ∨ s.cfg.stagger ≤ 0
  | _ => True

instance (s : PunchSession) : ∀ op, Decidable (s.Waited op)
  | .onTimeout _ => inferInstanceAs (Decidable (_ → _ → ∀ p ∈ s.pairs, WaitOver _ _ p))
  | .begin _ => inferInstanceAs (Decidable (_ → _ → _ ∨ _ ∨ _))
  | .onDatagram _ _ _ => .isTrue trivial
  | .onPeerProbe _ _ => .isTrue trivial
  | .pollTransmit => .isTrue trivial
  | .pollEvent => .isTrue trivial

/-- The time a call begins the punch at. -/
def Op.beginning : Op → Option Instant
  | .begin now => some now
  | _ => none

/-- A session that was begun at `began`, with `future` still to come. -/
structure Paced (began : Option Instant) (future : List Instant) (s : PunchSession) : Prop where
  pairs : s.pairs ≠ []
  idle : s.state = .idle → began = none ∧ ∀ p ∈ s.pairs, p.attempts = 0 ∧ p.exhausted = false
  probing : s.state = .probing → began = some s.started
  spent : ∀ p ∈ s.pairs, Spent s.cfg.maxAttemptsPerPair future p

variable {began : Option Instant} {future : List Instant}

theorem Spent.mono {max : Int} {p : Pair} {future' : List Instant} (h : Spent max future p)
    (hsub : future' ⊆ future) : Spent max future' p := by
  intro hexh
  obtain ⟨hused, hover⟩ := h hexh
  exact ⟨hused, fun u hu => hover u (hsub hu)⟩

theorem Paced.mono (h : Paced began future s) {future' : List Instant}
    (hsub : future' ⊆ future) : Paced began future' s :=
  ⟨h.pairs, h.idle, h.probing, fun p hp => (h.spent p hp).mono hsub⟩

theorem Paced.settles (h : Paced began future s) (hs : Settles s s') : Paced began future s' := by
  obtain ⟨hpairs, hstarted, hcfg⟩ := hs.frame
  have hstate : s'.state = s.state ∨ s'.state = .nominated ∨ s'.state = .failed := by
    cases hs with
    | pending => exact Or.inl rfl
    | nominate =>
        rcases maybeNominate_cases s with ⟨-, hsame⟩ | ⟨-, -, hsame⟩ | ⟨-, i, p, -, hnew⟩
        · exact Or.inl (by rw [hsame])
        · exact Or.inl (by rw [hsame])
        · exact Or.inr (Or.inl (by rw [hnew]))
    | giveUp => exact Or.inr (Or.inr rfl)
  refine ⟨hpairs ▸ h.pairs, ?_, ?_, ?_⟩
  · intro hidle
    rw [hpairs]
    rcases hstate with hstate | hstate | hstate
    · exact h.idle (hstate.symm.trans hidle)
    · rw [hidle] at hstate
      cases hstate
    · rw [hidle] at hstate
      cases hstate
  · intro hprobing
    rw [hstarted]
    rcases hstate with hstate | hstate | hstate
    · exact h.probing (hstate.symm.trans hprobing)
    · rw [hprobing] at hstate
      cases hstate
    · rw [hprobing] at hstate
      cases hstate
  · rw [hpairs, hcfg]
    exact h.spent

/-- Pairs that keep what they have used, and their wait once they are given up
on. -/
theorem Paced.pairwise (h : Paced began future s) (hstate : s'.state = s.state)
    (hstarted : s'.started = s.started) (hcfg : s'.cfg = s.cfg) (hne : s'.pairs ≠ [])
    (hpairs : ∀ p' ∈ s'.pairs, ∃ p ∈ s.pairs, p'.attempts = p.attempts ∧
      p'.exhausted = p.exhausted ∧ (p.exhausted = true → p'.nextSend = p.nextSend)) :
    Paced began future s' := by
  refine ⟨hne, ?_, ?_, ?_⟩
  · intro hidle
    obtain ⟨hbegan, hall⟩ := h.idle (hstate.symm.trans hidle)
    refine ⟨hbegan, fun p' hp' => ?_⟩
    obtain ⟨p, hp, hattempts, hexh, -⟩ := hpairs p' hp'
    rw [hattempts, hexh]
    exact hall p hp
  · intro hprobing
    rw [hstarted]
    exact h.probing (hstate.symm.trans hprobing)
  · intro p' hp' hexh'
    obtain ⟨p, hp, hattempts, hexh, hnext⟩ := hpairs p' hp'
    rw [hexh] at hexh'
    rw [hcfg, hattempts, hnext hexh']
    exact h.spent p hp hexh'

theorem visited_frame (P : Primitives) (s : PunchSession) (now : Instant) :
    (s.visited P now).cfg = s.cfg ∧ (s.visited P now).started = s.started ∧
      (s.visited P now).state = s.state := by
  obtain ⟨hsession, -⟩ := visitAll_keeps P s now s.pairs
  unfold visited
  rw [hsession]
  exact ⟨rfl, rfl, rfl⟩

theorem Paced.onTimeout {now : Instant} (h : Paced began (now :: future) s)
    (hfuture : ∀ u ∈ future, now ≤ u) (hwaited : s.Waited (.onTimeout now)) :
    Paced began (now :: future) (s.onTimeout P now) := by
  obtain ⟨s', hvisits, hsettles⟩ := onTimeout_visits P s now
  refine Paced.settles ?_ hsettles
  rcases hvisits with rfl | ⟨hprobing, hearly, rfl⟩
  · exact h
  · obtain ⟨hcfg, hstarted, hstate⟩ := visited_frame P s now
    have hall := visitAll_spent (P := P) hfuture h.spent (hwaited hprobing hearly)
    refine ⟨?_, ?_, ?_, ?_⟩
    · have hlen := congrArg List.length (visited_keeps P s now).known
      rw [known, known, List.length_map, List.length_map] at hlen
      exact List.ne_nil_of_length_pos (hlen ▸ List.length_pos_of_ne_nil h.pairs)
    · intro hidle
      rw [hstate, hprobing] at hidle
      cases hidle
    · intro _
      rw [hstarted]
      exact h.probing hprobing
    · intro p hp
      rw [hcfg]
      exact (hall p hp).1

/-- A call of `on_timeout` in time fails at the total timeout, or with every
pair spent and none answered. -/
theorem Paced.onTimeout_fails {now : Instant} (h : Paced began (now :: future) s)
    (hfuture : ∀ u ∈ future, now ≤ u) (hwaited : s.Waited (.onTimeout now))
    (hfails : failures s.events < failures (s.onTimeout P now).events) :
    began = some s.started ∧ (s.onTimeout P now).cfg = s.cfg ∧
      (s.cfg.totalTimeout ≤ now - s.started ∨
        ∀ p ∈ (s.onTimeout P now).pairs, s.cfg.maxAttemptsPerPair ≤ p.attempts ∧
          p.nextSend ≤ now ∧ p.validated = false) := by
  obtain ⟨hprobing, hwhen⟩ := PunchSession.onTimeout_fails hfails
  obtain ⟨s', hvisits, hsettles⟩ := onTimeout_visits P s now
  obtain ⟨hpairs, -, hcfg⟩ := hsettles.frame
  have hcfg' : s'.cfg = s.cfg := by
    rcases hvisits with rfl | ⟨-, -, rfl⟩
    · rfl
    · exact (visited_frame P s now).1
  refine ⟨h.probing hprobing, hcfg.trans hcfg', ?_⟩
  rcases hwhen with hlate | ⟨hearly, hlive, hval⟩
  · exact Or.inl hlate
  · right
    have hall := visitAll_spent (P := P) hfuture h.spent (hwaited hprobing hearly)
    have hvisited : (s.onTimeout P now).pairs = (s.visited P now).pairs := by
      rw [onTimeout_eq, if_neg (not_not.mpr hprobing), if_neg (Int.not_le.mpr hearly)]
      exact (Settles.conclude ((visited_frame P s now).2.2.trans hprobing) _ now).frame.1
    rw [hvisited]
    intro p hp
    obtain ⟨hspent, hdead⟩ := hall p hp
    obtain ⟨hused, hover⟩ := hspent (hdead hlive (hval p hp))
    exact ⟨hused, hover now List.mem_cons_self, hval p hp⟩

/-- `begin` schedules the pairs and is then a call of `on_timeout` in time. -/
theorem Paced.schedule {now : Instant} (h : Paced began (now :: future) s)
    (hidle : s.state = .idle) (hwaited : s.Waited (.begin now)) :
    Paced (some now) (now :: future) (s.schedule now) ∧
      (s.schedule now).Waited (.onTimeout now) := by
  obtain ⟨-, hnew⟩ := h.idle hidle
  have hscheduled : ∀ p ∈ (s.schedule now).pairs, ∃ q ∈ s.pairs, ∃ i < s.pairs.length,
      p = { q with nextSend := now + s.cfg.stagger * i } := by
    intro p hp
    obtain ⟨⟨q, i⟩, hqi, rfl⟩ := List.mem_map.mp hp
    have hget := List.mem_zipIdx_iff_getElem?.mp hqi
    exact ⟨q, List.mem_of_getElem? hget, i, (List.getElem?_eq_some_iff.mp hget).1, rfl⟩
  refine ⟨⟨?_, nofun, fun _ => rfl, ?_⟩, ?_⟩
  · intro hnil
    have hlen := congrArg List.length hnil
    simp only [PunchSession.schedule, List.length_map, List.length_zipIdx, List.length_nil] at hlen
    exact h.pairs (List.length_eq_zero_iff.mp hlen)
  · intro p hp hexh
    obtain ⟨q, hq, i, -, rfl⟩ := hscheduled p hp
    have hexh : q.exhausted = true := hexh
    rw [(hnew q hq).2] at hexh
    cases hexh
  · intro _ htotal p hp _ _ hused
    obtain ⟨q, hq, i, hi, rfl⟩ := hscheduled p hp
    have hused : s.cfg.maxAttemptsPerPair ≤ (q.attempts : Int) := hused
    rw [(hnew q hq).1] at hused
    have htotal : 0 < s.cfg.totalTimeout := by
      have hzero : now - now < s.cfg.totalTimeout := htotal
      rwa [Int.sub_self] at hzero
    have hwait : s.cfg.stagger * i ≤ 0 := by
      rcases hwaited hidle htotal with hmax | hone | hstagger
      · exact absurd hused (Int.not_le.mpr hmax)
      · have hzero : i = 0 := by omega
        rw [hzero]
        exact Int.le_of_eq (Int.mul_zero _)
      · exact Int.mul_nonpos_of_nonpos_of_nonneg hstagger (Int.natCast_nonneg i)
    exact Int.add_le_of_le_sub_left (Int.le_trans hwait (Int.le_of_eq (Int.sub_self now).symm))

theorem begin_eq (hidle : s.state = .idle) (hpairs : s.pairs ≠ []) (now : Instant) :
    s.begin P now = (s.schedule now).onTimeout P now := by
  unfold PunchSession.begin
  rw [if_neg (not_not.mpr hidle), if_neg (by simpa using hpairs)]

theorem Paced.begin {now : Instant} (h : Paced began (now :: future) s)
    (hfuture : ∀ u ∈ future, now ≤ u) (hwaited : s.Waited (.begin now)) :
    Paced (began.or (some now)) (now :: future) (s.begin P now) := by
  by_cases hidle : s.state = .idle
  · obtain ⟨hpaced, hwaited'⟩ := h.schedule hidle hwaited
    rw [begin_eq hidle h.pairs, (h.idle hidle).1, Option.none_or]
    exact hpaced.onTimeout hfuture hwaited'
  · have hsame : s.begin P now = s := if_pos hidle
    rw [hsame]
    refine ⟨h.pairs, fun hnow => absurd hnow hidle, ?_, h.spent⟩
    intro hprobing
    rw [h.probing hprobing, Option.some_or]

theorem Paced.onPeerProbe (h : Paced began future s) (src : Endpoint) (now : Instant) :
    Paced began future (s.onPeerProbe src now) := by
  refine h.pairwise rfl rfl rfl ?_ ?_
  · intro hnil
    exact h.pairs (List.map_eq_nil_iff.mp hnil)
  · intro p' hp'
    obtain ⟨p, hp, rfl⟩ := List.mem_map.mp hp'
    refine ⟨p, hp, ?_⟩
    split
    · rename_i hcond
      refine ⟨rfl, rfl, fun hexh => ?_⟩
      simp [hexh] at hcond
    · exact ⟨rfl, rfl, fun _ => rfl⟩

theorem Paced.onDatagram (h : Paced began future s) (src : Endpoint) (dgram : Bytes)
    (now : Instant) : Paced began future (s.onDatagram P src dgram now) := by
  unfold PunchSession.onDatagram
  split
  · refine Paced.onPeerProbe ?_ src now
    exact ⟨h.pairs, h.idle, h.probing, h.spent⟩
  · split
    · exact h
    · rename_i txn htxn
      obtain ⟨s', hprepared, hsettles⟩ := onProbeOk_turn s src txn now
      refine Paced.settles ?_ hsettles
      cases hprepared with
      | stale => exact h
      | @fresh _ _ i p now' at_ hfind hp hnew =>
          refine h.pairwise rfl rfl rfl ?_ ?_
          · intro hnil
            exact h.pairs ((List.set_eq_nil_iff _ _).mp hnil)
          · intro p' hp'
            rcases List.mem_or_eq_of_mem_set hp' with hp' | rfl
            · exact ⟨p', hp', rfl, rfl, fun _ => rfl⟩
            · exact ⟨p, List.mem_of_getElem? hp, rfl, rfl, fun _ => rfl⟩

/-- Every call that comes in time keeps the pace. -/
theorem Paced.step {op : Op} (h : Paced began (op.time.toList ++ future) s)
    (hfuture : ∀ t ∈ op.time, ∀ u ∈ future, t ≤ u) (hwaited : s.Waited op) :
    Paced (began.or op.beginning) future (s.step P op) := by
  cases op with
  | begin now =>
      exact (Paced.begin h (hfuture now rfl) hwaited).mono (List.subset_cons_self _ _)
  | onTimeout now =>
      simp only [Op.beginning, Option.or_none]
      exact (Paced.onTimeout h (hfuture now rfl) hwaited).mono (List.subset_cons_self _ _)
  | onDatagram src dgram now =>
      simp only [Op.beginning, Option.or_none]
      exact (h.onDatagram src dgram now).mono (List.subset_cons_self _ _)
  | onPeerProbe src now =>
      simp only [Op.beginning, Option.or_none]
      exact (h.onPeerProbe src now).mono (List.subset_cons_self _ _)
  | pollTransmit =>
      simp only [Op.beginning, Option.or_none]
      simp only [PunchSession.step, pollTransmit]
      split
      · exact h
      · exact ⟨h.pairs, h.idle, h.probing, h.spent⟩
  | pollEvent =>
      simp only [Op.beginning, Option.or_none]
      simp only [PunchSession.step, pollEvent]
      split
      · exact h
      · exact ⟨h.pairs, h.idle, h.probing, h.spent⟩

/-- The times of the calls. -/
def times (ops : List Op) : List Instant := ops.filterMap Op.time

theorem times_cons (op : Op) (ops : List Op) : times (op :: ops) = op.time.toList ++ times ops := by
  rw [times, List.filterMap_cons]
  cases op.time with
  | none => rfl
  | some t => rfl

theorem Paced.run {xs rest : List Op} (h : Paced began (times (xs ++ rest)) s)
    (hsorted : (times (xs ++ rest)).Pairwise (· ≤ ·))
    (hwaited : AllSteps Waited (PunchSession.step P) s xs) :
    Paced (began.or (xs.findSome? Op.beginning)) (times rest)
      (Foundation.run (PunchSession.step P) s xs) := by
  induction xs generalizing s began with
  | nil =>
      rw [List.findSome?_nil, Option.or_none]
      exact h
  | cons op xs ih =>
      rw [List.cons_append, times_cons] at h hsorted
      obtain ⟨-, hrest, hlater⟩ := List.pairwise_append.mp hsorted
      have hstep := h.step (P := P) (fun t ht u hu => hlater t (Option.mem_toList.mpr ht) u hu)
        hwaited.1
      have hfind : (op :: xs).findSome? Op.beginning =
          op.beginning.or (xs.findSome? Op.beginning) := by
        rw [List.findSome?_cons]
        cases op.beginning with
        | none => rfl
        | some t => rfl
      rw [hfind, ← Option.or_assoc]
      exact ih hstep hrest hwaited.2

/-! ## The calls that fail

A failing call of a run that meets the condition comes at the total timeout or
behind every wait. -/

/-- A datagram fails nothing. -/
theorem failures_onDatagram (P : Primitives) (s : PunchSession) (src : Endpoint) (dgram : Bytes)
    (now : Instant) :
    failures (s.onDatagram P src dgram now).events = failures s.events := by
  have hvalidated : ∀ path txn rtt,
      failures (s.events ++ [.pathValidated path txn rtt]) = failures s.events := by
    intro path txn rtt
    rw [failures_append]
    rfl
  unfold onDatagram
  split
  · rfl
  · split
    · rfl
    · unfold onProbeOk
      split
      · rfl
      · split
        · rfl
        · split
          · rfl
          · unfold validate
            dsimp only
            split
            · exact hvalidated _ _ _
            · split
              · rw [failures_maybeNominate]
                exact hvalidated _ _ _
              · split <;> exact hvalidated _ _ _

/-- When a call may fail: it is made at `now`, the punch was begun at `t₀`, and
the total timeout is over, or every pair has used its attempts and waited, and
none has answered. -/
def MayFail (s : PunchSession) (t₀ now : Instant) : Prop :=
  t₀ + s.cfg.totalTimeout ≤ now ∨
    ∀ p ∈ s.pairs, s.cfg.maxAttemptsPerPair ≤ p.attempts ∧ p.nextSend ≤ now ∧ p.validated = false

instance (s : PunchSession) (t₀ now : Instant) : Decidable (s.MayFail t₀ now) :=
  inferInstanceAs (Decidable (_ ∨ ∀ p ∈ s.pairs, _ ∧ _ ∧ _))

theorem Paced.fails {op : Op} (h : Paced began (op.time.toList ++ future) s)
    (hfuture : ∀ t ∈ op.time, ∀ u ∈ future, t ≤ u) (hwaited : s.Waited op)
    (hfails : failures s.events < failures (polled s op ++ (s.step P op).events)) :
    ∃ t₀ now, began.or op.beginning = some t₀ ∧ op.time = some now ∧
      (s.step P op).MayFail t₀ now := by
  have hmay : ∀ {b : Option Instant} {t : PunchSession} {now : Instant},
      Paced b (now :: future) t → (∀ u ∈ future, now ≤ u) → t.Waited (.onTimeout now) →
      failures t.events < failures (t.onTimeout P now).events →
      b = some t.started ∧ (t.onTimeout P now).MayFail t.started now := by
    intro b t now ht hfuture hwaited hfails
    obtain ⟨hb, hcfg, hwhen⟩ := ht.onTimeout_fails hfuture hwaited hfails
    refine ⟨hb, ?_⟩
    unfold MayFail
    rw [hcfg]
    rcases hwhen with hlate | hspent
    · exact Or.inl (Int.add_le_of_le_sub_left hlate)
    · exact Or.inr hspent
  cases op with
  | begin now =>
      have hfails : failures s.events < failures (s.begin P now).events := hfails
      by_cases hidle : s.state = .idle
      · obtain ⟨hpaced, hwaited'⟩ := h.schedule hidle hwaited
        have heq := begin_eq (P := P) hidle h.pairs now
        rw [heq] at hfails
        obtain ⟨-, hwhen⟩ := hmay hpaced (hfuture now rfl) hwaited' hfails
        refine ⟨now, now, ?_, rfl, ?_⟩
        · rw [(h.idle hidle).1]
          rfl
        · rw [PunchSession.step, heq]
          exact hwhen
      · have hsame : s.begin P now = s := if_pos hidle
        rw [hsame] at hfails
        exact absurd hfails (Nat.lt_irrefl _)
  | onTimeout now =>
      obtain ⟨hb, hwhen⟩ := hmay h (hfuture now rfl) hwaited hfails
      refine ⟨s.started, now, ?_, rfl, hwhen⟩
      rw [hb]
      rfl
  | onDatagram src dgram now =>
      have hfails : failures s.events < failures (s.onDatagram P src dgram now).events := hfails
      rw [failures_onDatagram] at hfails
      exact absurd hfails (Nat.lt_irrefl _)
  | onPeerProbe src now => exact absurd hfails (Nat.lt_irrefl _)
  | pollTransmit =>
      simp only [polled, PunchSession.step, pollTransmit] at hfails
      split at hfails <;> exact absurd hfails (Nat.lt_irrefl _)
  | pollEvent =>
      simp only [polled, PunchSession.step, pollEvent] at hfails
      split at hfails
      · exact absurd hfails (Nat.lt_irrefl _)
      · rename_i hevents
        rw [hevents] at hfails
        exact absurd hfails (Nat.lt_irrefl _)

/-- The call `op` behind `xs` does not give up early: if it emits a failure then
it may. -/
def NotEarly (P : Primitives) (s : PunchSession) (xs : List Op) (op : Op) : Prop :=
  failures (emitted P s xs) < failures (emitted P s (xs ++ [op])) →
    ∃ t₀ now, (xs ++ [op]).findSome? Op.beginning = some t₀ ∧ op.time = some now ∧
      (run (step P) s (xs ++ [op])).MayFail t₀ now

theorem paced_created (hs : Created s) (hpairs : s.pairs ≠ []) : Paced none future s := by
  obtain ⟨cfg, probeKey, ourSrflx, remoteCands, txns, jitter, pairs, hperm, -⟩ := hs
  have hnew : ∀ p ∈ pairs, p.attempts = 0 ∧ p.exhausted = false := by
    intro p hp
    obtain ⟨x, -, rfl⟩ := List.mem_map.mp (hperm.mem_iff.mp hp)
    exact ⟨rfl, rfl⟩
  refine ⟨hpairs, fun _ => ⟨rfl, hnew⟩, nofun, ?_⟩
  intro p hp hexh
  rw [(hnew p hp).2] at hexh
  cases hexh

/-- Where every call comes in time, no call gives up early. -/
theorem not_given_up_early (hs : Created s) (hpairs : s.pairs ≠ []) (ops : List Op)
    (hsorted : (times ops).Pairwise (· ≤ ·)) (hwaited : AllSteps Waited (step P) s ops) :
    ∀ xs op ys, ops = xs ++ op :: ys → NotEarly P s xs op := by
  rintro xs op ys rfl hfails
  obtain ⟨hbefore, hnow, -⟩ := allSteps_append.mp hwaited
  have hpaced := (paced_created hs hpairs).run hsorted hbefore
  have htail : (times (op :: ys)).Pairwise (· ≤ ·) := by
    rw [times, List.filterMap_append] at hsorted
    exact (List.pairwise_append.mp hsorted).2.1
  rw [times_cons] at hpaced htail
  have hlater := (List.pairwise_append.mp htail).2.2
  have hstep : failures (run (step P) s xs).events <
      failures (polled (run (step P) s xs) op ++ ((run (step P) s xs).step P op).events) := by
    have hlog : emitted P s (xs ++ [op]) = trace polled (step P) s xs ++
        (polled (run (step P) s xs) op ++ ((run (step P) s xs).step P op).events) := by
      rw [emitted, ledger_append, ledger_cons]
      rfl
    rw [hlog, emitted, ledger, failures_append, failures_append] at hfails
    exact Nat.lt_of_add_lt_add_left hfails
  obtain ⟨t₀, now, hbegan, htime, hwhen⟩ :=
    hpaced.fails (fun t ht u hu => hlater t (Option.mem_toList.mpr ht) u hu) hnow hstep
  refine ⟨t₀, now, ?_, htime, ?_⟩
  · rw [List.findSome?_append, ← hbegan, Option.none_or, List.findSome?_cons]
    cases op.beginning with
    | none => rfl
    | some t => rfl
  · rw [run_append]
    exact hwhen

/-- A session with one host candidate and the default configuration. -/
def singleSession : PunchSession where
  cfg := {}
  probeKey := none
  pairs := newPairs none [{ kind := .host, ep := sampleEndpoint 1 }] (fun _ => Vector.replicate 16 1)
  jitter := fun _ => 0

/-- Seven probes, each sent when it is due. -/
def sevenProbes : List Op :=
  [.begin 0, .onTimeout (milliseconds 150), .onTimeout (milliseconds 450),
    .onTimeout (milliseconds 1050), .onTimeout (milliseconds 2250),
    .onTimeout (milliseconds 3450), .onTimeout (milliseconds 4650)]

theorem singleSession_created : Created singleSession :=
  .mk {} none none _ _ _ _ (List.Perm.refl _) (by decide)

/-- The punch is given up 1 ms behind the last probe. -/
theorem given_up_with_probe_in_flight :
    Created singleSession ∧ singleSession.pairs ≠ [] ∧
      (times (sevenProbes ++ [.onTimeout (milliseconds 4651)])).Pairwise (· ≤ ·) ∧
      ¬ NotEarly Primitives.checksum singleSession sevenProbes (.onTimeout (milliseconds 4651)) := by
  refine ⟨singleSession_created, by decide, by decide, fun h => ?_⟩
  obtain ⟨t₀, now, hbegan, htime, hmay⟩ := h (by decide +kernel)
  cases hbegan
  cases htime
  exact absurd hmay (by decide +kernel)

/-- With the last call when the wait is over it fails, and may. -/
theorem not_given_up_early_single :
    let op : Op := .onTimeout (milliseconds 5850)
    failures (emitted Primitives.checksum singleSession (sevenProbes ++ [op])) = 1 ∧
      NotEarly Primitives.checksum singleSession sevenProbes op := by
  intro op
  refine ⟨by decide +kernel, ?_⟩
  exact not_given_up_early singleSession_created (by decide) (sevenProbes ++ [op]) (by decide)
    (by decide +kernel) sevenProbes op [] rfl

end PunchSession

end UConnect.Path
