/-
  Server/Freshness.lean --- the counts of fresh records.

  A topic counts its fresh members as they come and go, and the records that
  have grown stale are taken out of the count only when somebody asks.  The
  count is of the entries of `fresh_order_`: each is the last sign of life of a
  record, and a record without an entry is stale at every time asked for since.
  After `expire_fresh` the two are the same, so the counts are those of the
  fresh records, modulo the range of the counters.
-/
import UConnect.Server.Quotas

set_option autoImplicit false

namespace UConnect.Server

open UConnect UConnect.Foundation UConnect.Crypto

namespace Registry

/-! ## The invariant

The entries of the order are last signs of life, and a record without one was
stale whenever anyone asked. -/

/-- The entries of `fresh_order_` for a topic. -/
def counting (r : Registry) (t : TopicId) : Nat := tally r.freshOrder fun _ t' => t' = t

/-- An entry of `fresh_order_` is the last sign of life of a record, and the
counters count the entries. -/
structure Counters (r : Registry) : Prop where
  entries : ∀ k t, r.freshOrder.lookup k = some t →
    ∃ e, r.byDev.lookup k.2 = some e ∧ e.lastSeen = k.1 ∧ e.topicId = t
  topics : ∀ t s, r.topics.lookup t = some s → s.fresh = r.counting t % 2 ^ 32
  total : r.stats.entriesFresh = r.freshOrder.entries.length % 2 ^ 64

/-- A record without an entry is stale at `now`, except that of `but`. -/
def UncountedStale (now : Instant) (but : Option DevId) (r : Registry) : Prop :=
  ∀ dev e, some dev ≠ but → r.byDev.lookup dev = some e →
    (e.lastSeen, dev) ∉ r.freshOrder → ¬ now - e.lastSeen < r.cfg.staleAfter

section Counters

variable {P : Primitives} {key : SymKey} {known : List (TopicId × Endpoint)} {now asked : Instant}
  {but : Option DevId} {r r' : Registry}

/-- An entry is taken out, and the two counters go down. -/
def uncount (r : Registry) (k : Instant × DevId) (t : TopicId) : Registry :=
  { r with
    freshOrder := r.freshOrder.erase k
    topics := modifyAt r.topics t fun s => { s with fresh := decr 32 s.fresh }
    stats := { r.stats with entriesFresh := decr 64 r.stats.entriesFresh } }

/-- A round of `expire_fresh` counts down for the entry it drops. -/
theorem expireOne_eq (r : Registry) (e : Σ _ : Instant × DevId, TopicId) :
    r.expireOne e = r.uncount e.1 e.2 := rfl

/-- Forgetting counts down for an entry that is there, and else does nothing. -/
theorem forgetFresh_eq (r : Registry) (e : Entry) :
    r.forgetFresh e =
      if (e.lastSeen, e.devId) ∈ r.freshOrder then r.uncount (e.lastSeen, e.devId) e.topicId
      else r := rfl

/-- Counting down for an entry and dropping it keeps the counters exact, modulo
their range. -/
theorem Counters.uncount (h : r.Counters) {k : Instant × DevId} {t : TopicId}
    (hk : r.freshOrder.lookup k = some t) : (r.uncount k t).Counters := by
  have hless : ∀ p : TopicId → Bool,
      (tally (r.freshOrder.erase k) fun _ t' => p t') + (if p t then 1 else 0) =
        tally r.freshOrder fun _ t' => p t' := by
    intro p
    have herase := tally_erase_add r.freshOrder k fun _ t' => p t'
    rwa [hk, Option.any_some] at herase
  refine ⟨?_, ?_, ?_⟩
  · intro k' t' hk'
    rw [show (r.uncount k t).freshOrder = r.freshOrder.erase k from rfl, lookup_erase_ite] at hk'
    split at hk'
    · cases hk'
    · exact h.entries k' t' hk'
  · intro t' s hs
    rw [show (r.uncount k t).topics = modifyAt r.topics t fun s => { s with fresh := decr 32 s.fresh }
      from rfl, lookup_modifyAt] at hs
    have hcount : (r.uncount k t).counting t' + (if t = t' then 1 else 0) = r.counting t' := by
      have hone := hless fun t'' => t'' = t'
      simp only [decide_eq_true_eq] at hone
      exact hone
    split at hs
    · rename_i heq
      obtain ⟨s₀, hs₀, rfl⟩ := Option.map_eq_some_iff.mp hs
      rw [if_pos heq.symm] at hcount
      show decr 32 s₀.fresh = _
      rw [h.topics t' s₀ (heq ▸ hs₀), ← hcount, decr_mod]
    · rename_i hne
      rw [if_neg (Ne.symm hne), Nat.add_zero] at hcount
      rw [hcount]
      exact h.topics t' s hs
  · have hone := hless fun _ => true
    rw [if_pos rfl, tally_true, tally_true] at hone
    show decr 64 r.stats.entriesFresh = (r.freshOrder.erase k).entries.length % 2 ^ 64
    rw [h.total, ← hone, decr_mod]

/-- A record grown stale may go uncounted. -/
theorem UncountedStale.uncount (h : r.UncountedStale now but) {k : Instant × DevId} (t : TopicId)
    (hout : some k.2 ≠ but → ¬ now - k.1 < r.cfg.staleAfter) :
    (r.uncount k t).UncountedStale now but := by
  intro dev e hdev he hnot
  by_cases heq : (e.lastSeen, dev) = k
  · rw [← heq] at hout
    exact hout hdev
  · refine h dev e hdev he fun hin => hnot ?_
    show (e.lastSeen, dev) ∈ r.freshOrder.erase k
    rw [AList.mem_erase]
    exact ⟨heq, hin⟩

/-- No other entry than that of its last sign of life is a record's. -/
theorem Counters.lookup_seen (h : r.Counters) {dev : DevId} {e : Entry}
    (he : r.byDev.lookup dev = some e) {seen : Instant} {t : TopicId}
    (hk : r.freshOrder.lookup (seen, dev) = some t) : e.lastSeen = seen ∧ e.topicId = t := by
  obtain ⟨e', he', hseen, htopic⟩ := h.entries _ t hk
  cases he.symm.trans he'
  exact ⟨hseen, htopic⟩

/-- The last sign of life of a record is forgotten. -/
theorem Counters.forget (h : r.Counters) {dev : DevId} {e : Entry}
    (he : r.byDev.lookup dev = some e) (hid : e.devId = dev) :
    (r.forgetFresh e).Counters ∧ ∀ seen, (seen, dev) ∉ (r.forgetFresh e).freshOrder := by
  rw [forgetFresh_eq, hid]
  split
  · rename_i hin
    obtain ⟨t, ht⟩ := Option.isSome_iff_exists.mp (AList.lookup_isSome.mpr hin)
    obtain ⟨-, rfl⟩ := h.lookup_seen he ht
    refine ⟨h.uncount ht, fun seen hseen => ?_⟩
    obtain ⟨hne, hold⟩ := AList.mem_erase.mp hseen
    obtain ⟨t', ht'⟩ := Option.isSome_iff_exists.mp (AList.lookup_isSome.mpr hold)
    obtain ⟨heq, -⟩ := h.lookup_seen he ht'
    exact hne (by rw [heq])
  · rename_i hout
    refine ⟨h, fun seen hseen => ?_⟩
    obtain ⟨t', ht'⟩ := Option.isSome_iff_exists.mp (AList.lookup_isSome.mpr hseen)
    obtain ⟨heq, -⟩ := h.lookup_seen he ht'
    exact hout (heq ▸ hseen)

/-- If every record without an entry is stale, every one but this is. -/
theorem UncountedStale.weaken (h : r.UncountedStale now none) (dev : DevId) :
    r.UncountedStale now (some dev) :=
  fun dev' e _ he hnot => h dev' e (Option.some_ne_none _) he hnot

/-- A record that is about to be marked may be without its entry for the moment. -/
theorem UncountedStale.forget {dev : DevId} (h : r.UncountedStale now (some dev))
    (hcount : r.Counters) {e : Entry} (he : r.byDev.lookup dev = some e) (hid : e.devId = dev) :
    (r.forgetFresh e).UncountedStale now (some dev) := by
  rw [forgetFresh_eq, hid]
  split
  · rename_i hin
    obtain ⟨t, ht⟩ := Option.isSome_iff_exists.mp (AList.lookup_isSome.mpr hin)
    obtain ⟨-, rfl⟩ := hcount.lookup_seen he ht
    exact h.uncount _ fun hne => absurd rfl hne
  · exact h

/-- The whole invariant, for a question asked at `asked`. -/
structure Fresh (asked : Instant) (r : Registry) : Prop where
  counters : r.Counters
  stale : r.UncountedStale asked none

/-- What keeps the records' topics and signs of life, the entries and the
counters keeps the invariant. -/
theorem Counters.congr (h : r.Counters)
    (hrec : ∀ dev, (r'.byDev.lookup dev).map (fun e => (e.lastSeen, e.topicId)) =
      (r.byDev.lookup dev).map fun e => (e.lastSeen, e.topicId))
    (horder : r'.freshOrder = r.freshOrder)
    (htopics : ∀ t, (r'.topics.lookup t).map TopicState.fresh =
      (r.topics.lookup t).map TopicState.fresh)
    (htotal : r'.stats.entriesFresh = r.stats.entriesFresh) : r'.Counters := by
  refine ⟨?_, ?_, ?_⟩
  · intro k t hk
    rw [horder] at hk
    obtain ⟨e, he, hseen, htopic⟩ := h.entries k t hk
    have hmap := hrec k.2
    rw [he, Option.map_some] at hmap
    obtain ⟨e', he', heq⟩ := Option.map_eq_some_iff.mp hmap
    obtain ⟨hseen', htopic'⟩ := Prod.mk.inj heq
    exact ⟨e', he', hseen'.trans hseen, htopic'.trans htopic⟩
  · intro t s hs
    have hmap := htopics t
    rw [hs, Option.map_some] at hmap
    obtain ⟨s₀, hs₀, heq⟩ := Option.map_eq_some_iff.mp hmap.symm
    unfold counting
    rw [← heq, horder]
    exact h.topics t s₀ hs₀
  · rw [htotal, horder]
    exact h.total

theorem UncountedStale.congr (h : r.UncountedStale now but)
    (hrec : ∀ dev, (r'.byDev.lookup dev).map (fun e => (e.lastSeen, e.topicId)) =
      (r.byDev.lookup dev).map fun e => (e.lastSeen, e.topicId))
    (horder : r'.freshOrder = r.freshOrder) (hcfg : r'.cfg = r.cfg) :
    r'.UncountedStale now but := by
  intro dev e hdev he hnot
  have hmap := hrec dev
  rw [he, Option.map_some] at hmap
  obtain ⟨e₀, he₀, heq⟩ := Option.map_eq_some_iff.mp hmap.symm
  obtain ⟨hseen, -⟩ := Prod.mk.inj heq
  rw [← hseen, hcfg]
  refine h dev e₀ hdev he₀ ?_
  rw [hseen, ← horder]
  exact hnot

theorem Fresh.congr (h : r.Fresh asked)
    (hrec : ∀ dev, (r'.byDev.lookup dev).map (fun e => (e.lastSeen, e.topicId)) =
      (r.byDev.lookup dev).map fun e => (e.lastSeen, e.topicId))
    (horder : r'.freshOrder = r.freshOrder)
    (htopics : ∀ t, (r'.topics.lookup t).map TopicState.fresh =
      (r.topics.lookup t).map TopicState.fresh)
    (htotal : r'.stats.entriesFresh = r.stats.entriesFresh) (hcfg : r'.cfg = r.cfg) :
    r'.Fresh asked :=
  ⟨h.counters.congr hrec horder htopics htotal, h.stale.congr hrec horder hcfg⟩

/-! ## Every move

A record is marked or forgotten; no operation does anything else to the order. -/

theorem cfg_forgetFresh (r : Registry) (e : Entry) : (r.forgetFresh e).cfg = r.cfg := by
  rw [forgetFresh_eq]
  split
  · rfl
  · rfl

/-- A record is marked fresh; until then its own sign of life may be out of
step. -/
theorem Counters.markFresh {dev : DevId} {e : Entry} (hcount : r.Counters)
    (hstale : r.UncountedStale asked (some dev)) (he : r.byDev.lookup dev = some e)
    (hid : e.devId = dev) : (r.markFresh dev now).Fresh asked := by
  obtain ⟨hcount', hnone⟩ := hcount.forget he hid
  have hstale' := hstale.forget hcount he hid
  have hcfg := cfg_forgetFresh r e
  have hbyDev := byDev_forgetFresh r e
  unfold Registry.markFresh
  rw [he]
  dsimp only
  generalize r.forgetFresh e = r₀ at hcount' hnone hstale' hcfg hbyDev
  rw [hid, if_neg (hnone now)]
  have hnew : r₀.freshOrder.lookup (now, dev) = none := AList.lookup_eq_none.mpr (hnone now)
  refine ⟨⟨?_, ?_, ?_⟩, ?_⟩
  · intro k t hk
    simp only [lookup_insert_ite] at hk ⊢
    split at hk
    · rename_i heq
      cases hk
      rw [heq, if_pos rfl]
      exact ⟨_, rfl, rfl, rfl⟩
    · obtain ⟨e', he', hseen, htopic⟩ := hcount'.entries k t hk
      have hne : k.2 ≠ dev := by
        rintro rfl
        refine hnone k.1 (AList.lookup_isSome.mp ?_)
        rw [hk]
        rfl
      rw [if_neg hne]
      exact ⟨e', he', hseen, htopic⟩
  · intro t s hs
    simp only [lookup_modifyAt] at hs
    have hmore : (tally (r₀.freshOrder.insert (now, dev) e.topicId) fun _ t' => t' = t) =
        r₀.counting t + if e.topicId = t then 1 else 0 := by
      rw [tally_insert_new _ _ _ _ hnew]
      simp only [decide_eq_true_eq]
      rfl
    show s.fresh = (tally (r₀.freshOrder.insert (now, dev) e.topicId) fun _ t' => t' = t) % 2 ^ 32
    rw [hmore]
    split at hs
    · rename_i heq
      obtain ⟨s₀, hs₀, rfl⟩ := Option.map_eq_some_iff.mp hs
      show incr 32 s₀.fresh = _
      rw [if_pos heq.symm, hcount'.topics t s₀ (heq ▸ hs₀), incr_mod]
    · rename_i hne
      rw [if_neg (Ne.symm hne)]
      exact hcount'.topics t s hs
  · show incr 64 r₀.stats.entriesFresh = _
    rw [length_insert_new hnew, hcount'.total, incr_mod]
  · intro dev' e' _ he' hnot
    simp only [lookup_insert_ite] at he'
    simp only [AList.mem_insert, not_or, Prod.mk.injEq, not_and] at hnot
    split at he'
    · rename_i heq
      cases he'
      exact absurd heq (hnot.1 rfl)
    · rename_i hne
      exact hstale' dev' e' (fun heq => hne (Option.some.inj heq)) he' hnot.2

theorem addRecord_fresh (r : Registry) (msg : Register) (dev : DevId) (src : Endpoint)
    (owner : ConnKey) :
    (r.addRecord msg dev src owner).freshOrder = r.freshOrder ∧
      (r.addRecord msg dev src owner).stats = r.stats ∧
      ∀ t, ((r.addRecord msg dev src owner).topics.lookup t).map TopicState.fresh =
        if t = msg.id then some (((r.topics.lookup msg.id).map TopicState.fresh).getD 0)
        else (r.topics.lookup t).map TopicState.fresh := by
  have hfresh : ((r.topics.lookup msg.id).getD {}).fresh =
      ((r.topics.lookup msg.id).map TopicState.fresh).getD 0 := by
    cases r.topics.lookup msg.id with
    | none => rfl
    | some s => rfl
  unfold addRecord openTopic
  rw [← hfresh]
  dsimp only
  split
  · refine ⟨rfl, rfl, fun t => ?_⟩
    rw [lookup_insert_ite]
    split
    · rfl
    · rfl
  · refine ⟨rfl, rfl, fun t => ?_⟩
    rw [lookup_insert_ite]
    split
    · rfl
    · rfl

/-- A topic that does not exist has no entries. -/
theorem Counters.counting_absent (h : r.Counters) (hsound : r.Sound P key known) {t : TopicId}
    (ht : r.topics.lookup t = none) : r.counting t = 0 := by
  unfold counting
  refine tally_eq_zero fun k t' hk => decide_eq_false ?_
  rintro rfl
  obtain ⟨e, he, -, htopic⟩ := h.entries k t' hk
  obtain ⟨m, hm⟩ := hsound.topics.present k.2 e.stub (record_eq_stub he)
  have hnone : r.view.topic e.topicId = none := by
    rw [htopic]
    simp only [view, ht, Option.map_none]
  cases hnone.symm.trans hm

/-- A new record is marked as it is added. -/
theorem Fresh.addRecord (h : r.Fresh asked) (hsound : r.Sound P key known) {msg : Register}
    {src : Endpoint} {owner : ConnKey} {e : Entry} (hnew : r.byDev.lookup e.devId = none) :
    ({ r.addRecord msg e.devId src owner with byDev := r.byDev.insert e.devId e }.markFresh
      e.devId now).Fresh asked := by
  obtain ⟨horder, hstats, htopics⟩ := addRecord_fresh r msg e.devId src owner
  obtain ⟨hcfg, -, -⟩ := addRecord_frame r msg e.devId src owner
  refine Counters.markFresh ⟨?_, ?_, ?_⟩ ?_ (AList.lookup_insert _) rfl
  · intro k t hk
    rw [show _ = r.freshOrder from horder] at hk
    obtain ⟨e', he', hseen, htopic⟩ := h.counters.entries k t hk
    refine ⟨e', ?_, hseen, htopic⟩
    dsimp only
    rw [lookup_insert_ite, if_neg]
    · exact he'
    · intro heq
      rw [heq, hnew] at he'
      cases he'
  · intro t s hs
    have hcount : counting { r.addRecord msg e.devId src owner with
        byDev := r.byDev.insert e.devId e } t = r.counting t := by
      unfold counting
      dsimp only
      rw [horder]
    have hfresh := htopics t
    rw [show (r.addRecord msg e.devId src owner).topics.lookup t = some s from hs,
      Option.map_some] at hfresh
    rw [hcount]
    split at hfresh
    · rename_i heq
      rw [Option.some.inj hfresh, heq]
      cases ht : r.topics.lookup msg.id with
      | none =>
          rw [h.counters.counting_absent hsound ht]
          rfl
      | some s₀ => exact h.counters.topics msg.id s₀ ht
    · obtain ⟨s₀, hs₀, heq⟩ := Option.map_eq_some_iff.mp hfresh.symm
      rw [← heq]
      exact h.counters.topics t s₀ hs₀
  · dsimp only
    rw [hstats, horder]
    exact h.counters.total
  · intro dev e' hdev he' hnot
    dsimp only at he' hnot ⊢
    rw [lookup_insert_ite] at he'
    rw [horder] at hnot
    rw [hcfg]
    split at he'
    · rename_i heq
      exact absurd (congrArg some heq) hdev
    · exact h.stale dev e' (Option.some_ne_none _) he' hnot

theorem leaveTopic_fresh (r : Registry) (dev : DevId) (e : Entry) :
    (r.leaveTopic dev e).freshOrder = r.freshOrder ∧ (r.leaveTopic dev e).stats = r.stats := by
  unfold leaveTopic
  split
  · exact ⟨rfl, rfl⟩
  · dsimp only
    split
    · exact ⟨rfl, rfl⟩
    · exact ⟨rfl, rfl⟩

/-- An erased record leaves the order before it is gone. -/
theorem Fresh.eraseEntry (h : r.Fresh asked) (hsound : r.Sound P key known) (dev : DevId) :
    (r.eraseEntry dev).Fresh asked := by
  unfold Registry.eraseEntry
  cases he : r.byDev.lookup dev with
  | none => exact h
  | some e =>
      have hid : e.devId = dev := (hsound.topics.derived dev e.stub (record_eq_stub he)).1
      obtain ⟨hcount, hnone⟩ := h.counters.forget he hid
      have hstale := (h.stale.weaken dev).forget h.counters he hid
      dsimp only
      generalize r.forgetFresh e = r₀ at hcount hnone hstale ⊢
      obtain ⟨horder, hstats⟩ := leaveTopic_fresh r₀ dev e
      obtain ⟨hcfg, -⟩ := leaveTopic_frame r₀ dev e
      have hbyDev := byDev_leaveTopic r₀ dev e
      refine ⟨⟨?_, ?_, ?_⟩, ?_⟩
      · intro k t hk
        dsimp only at hk ⊢
        rw [horder] at hk
        obtain ⟨e', he', hseen, htopic⟩ := hcount.entries k t hk
        refine ⟨e', ?_, hseen, htopic⟩
        rw [hbyDev, lookup_erase_ite, if_neg]
        · exact he'
        · rintro rfl
          refine hnone k.1 (AList.lookup_isSome.mp ?_)
          rw [hk]
          rfl
      · intro t s hs
        obtain ⟨s₀, hs₀, hfresh, -⟩ := lookup_leaveTopic hs
        unfold counting
        dsimp only
        rw [hfresh, horder]
        exact hcount.topics t s₀ hs₀
      · dsimp only
        rw [hstats, horder]
        exact hcount.total
      · intro dev' e' _ he' hnot
        dsimp only at he' hnot ⊢
        rw [hbyDev, lookup_erase_ite] at he'
        rw [horder] at hnot
        rw [hcfg]
        split at he'
        · cases he'
        · rename_i hne
          exact hstale dev' e' (fun heq => hne (Option.some.inj heq)) he' hnot

/-- Every move before the question is asked keeps the invariant. -/
theorem Fresh.move {ms : List Mark} (hnow : now ≤ asked) (hsound : r.Sound P key known)
    (h : r.Fresh asked) (hm : Move P known now ms r r') : r'.Fresh asked := by
  cases hm with
  | beside hb =>
      refine h.congr (fun dev => ?_) hb.freshOrder (fun t => ?_) hb.entriesFresh hb.cfg
      · rw [hb.byDev]
      · rw [hb.topics]
  | @rewrite _ dev e e' he _ htopic _ hseen =>
      refine h.congr (fun dev' => ?_) rfl (fun _ => rfl) rfl rfl
      rw [lookup_insert_ite]
      split
      · rename_i heq
        rw [heq, he, Option.map_some, Option.map_some, htopic, hseen]
      · rfl
  | add hnew _ _ _ _ _ => exact h.addRecord hsound hnew
  | @mark _ dev e he =>
      have hid : e.devId = dev := (hsound.topics.derived dev e.stub (record_eq_stub he)).1
      exact h.counters.markFresh (h.stale.weaken dev) he hid
  | hide =>
      refine h.congr (fun _ => rfl) rfl (fun t => ?_) rfl rfl
      exact map_lookup_modifyAt _ _ t fun _ => rfl
  | erase => exact h.eraseEntry hsound _
  | @expire _ e he hstale =>
      rw [expireOne_eq]
      refine ⟨h.counters.uncount (AList.mem_lookup_iff.mpr he), h.stale.uncount _ fun _ hlt => ?_⟩
      refine hstale (Int.lt_of_le_of_lt ?_ hlt)
      exact Int.sub_le_sub_right hnow _

/-- Without records everything is counted. -/
theorem Fresh.init (asked : Instant) (cfg : RegistryConfig) (secret : SymKey) :
    Fresh asked { cfg := cfg, secret := secret } := by
  refine ⟨⟨?_, ?_, rfl⟩, ?_⟩
  · intro k t hk
    cases hk
  · intro t s hs
    cases hs
  · intro dev e _ he
    cases he

end Counters

/-! ## After `expire_fresh`

What is left in the order is young, so it is the fresh records, each once. -/

/-- The fresh records of a topic. -/
def freshIn (r : Registry) (t : TopicId) (now : Instant) : Nat :=
  tally r.byDev fun _ e => e.topicId = t && r.isFresh e now

section Expired

variable {asked now : Instant} {r : Registry}

theorem freshLe_total (a b : Σ _ : Instant × DevId, TopicId) : freshLe a b || freshLe b a := by
  simp only [freshLe, Bool.or_eq_true, Bool.and_eq_true, decide_eq_true_eq, beq_iff_eq]
  rcases Int.lt_trichotomy a.1.1 b.1.1 with hlt | heq | hgt
  · exact Or.inl (Or.inl hlt)
  · rcases List.le_total a.1.2.toList b.1.2.toList with hle | hge
    · exact Or.inl (Or.inr ⟨heq, hle⟩)
    · exact Or.inr (Or.inr ⟨heq.symm, hge⟩)
  · exact Or.inr (Or.inl hgt)

theorem freshLe_trans (a b c : Σ _ : Instant × DevId, TopicId) (hab : freshLe a b)
    (hbc : freshLe b c) : freshLe a c := by
  simp only [freshLe, Bool.or_eq_true, Bool.and_eq_true, decide_eq_true_eq, beq_iff_eq] at *
  rcases hab with hab | ⟨hab, hle⟩
  · rcases hbc with hbc | ⟨hbc, -⟩
    · exact Or.inl (Int.lt_trans hab hbc)
    · exact Or.inl (hbc ▸ hab)
  · rcases hbc with hbc | ⟨hbc, hle'⟩
    · exact Or.inl (hab ▸ hbc)
    · exact Or.inr ⟨hab.trans hbc, List.le_trans hle hle'⟩

/-- What a list sorted by age begins with is everything that is old enough. -/
theorem mem_takeWhile_of_sorted {l : List (Σ _ : Instant × DevId, TopicId)} {limit : Duration}
    (hsorted : l.Pairwise fun a b => a.1.1 ≤ b.1.1) {e : Σ _ : Instant × DevId, TopicId}
    (he : e ∈ l) (hold : ¬ now - e.1.1 < limit) :
    e ∈ l.takeWhile fun e => ¬ (now - e.1.1 < limit) := by
  induction l with
  | nil => cases he
  | cons a l ih =>
      obtain ⟨hafter, hrest⟩ := List.pairwise_cons.mp hsorted
      have ha : ¬ now - a.1.1 < limit := by
        rcases List.mem_cons.mp he with rfl | hmem
        · exact hold
        · intro hlt
          exact hold (Int.lt_of_le_of_lt (Int.sub_le_sub_left (hafter e hmem) _) hlt)
      rw [List.takeWhile_cons, if_pos (decide_eq_true ha)]
      rcases List.mem_cons.mp he with rfl | hmem
      · exact List.mem_cons_self
      · exact List.mem_cons_of_mem _ (ih hrest hmem)

/-- An entry that is old enough is among those `expire_fresh` drops, wherever it
stands. -/
theorem mem_staleEntries_of {e : Σ _ : Instant × DevId, TopicId} (he : e ∈ r.freshOrder.entries)
    (hold : ¬ now - e.1.1 < r.cfg.staleAfter) : e ∈ r.staleEntries now := by
  have hsorted := List.pairwise_mergeSort freshLe_trans freshLe_total r.freshOrder.entries
  refine mem_takeWhile_of_sorted (hsorted.imp fun hle => ?_)
    ((List.mergeSort_perm _ _).mem_iff.mpr he) hold
  simp only [freshLe, Bool.or_eq_true, Bool.and_eq_true, decide_eq_true_eq, beq_iff_eq] at hle
  rcases hle with hlt | ⟨heq, -⟩
  · exact Int.le_of_lt hlt
  · exact Int.le_of_eq heq

theorem lookup_foldl_expireOne (l : List (Σ _ : Instant × DevId, TopicId)) (r : Registry)
    (k : Instant × DevId) :
    (l.foldl expireOne r).freshOrder.lookup k =
      if k ∈ l.map Sigma.fst then none else r.freshOrder.lookup k := by
  induction l generalizing r with
  | nil => rfl
  | cons e l ih =>
      rw [List.foldl_cons, ih, show (r.expireOne e).freshOrder = r.freshOrder.erase e.1 from rfl,
        lookup_erase_ite, List.map_cons]
      by_cases heq : k = e.1
      · rw [if_pos heq, ite_self, if_pos (List.mem_cons.mpr (Or.inl heq))]
      · have hsame : (k ∈ e.1 :: l.map Sigma.fst) = (k ∈ l.map Sigma.fst) := by
          rw [List.mem_cons, eq_false heq, false_or]
        rw [if_neg heq]
        simp only [hsame]

/-- No stale entry is left. -/
theorem lookup_expireFresh {k : Instant × DevId} {t : TopicId}
    (hk : (r.expireFresh now).freshOrder.lookup k = some t) : now - k.1 < r.cfg.staleAfter := by
  unfold expireFresh at hk
  rw [lookup_foldl_expireOne] at hk
  split at hk
  · cases hk
  · rename_i hnot
    by_contra hold
    refine hnot (List.mem_map.mpr ⟨⟨k, t⟩, ?_, rfl⟩)
    exact mem_staleEntries_of (AList.mem_lookup_iff.mp hk) hold

theorem expireFresh_frame (r : Registry) (now : Instant) :
    (r.expireFresh now).cfg = r.cfg ∧ (r.expireFresh now).byDev = r.byDev := by
  unfold expireFresh
  generalize List.takeWhile _ _ = l
  induction l generalizing r with
  | nil => exact ⟨rfl, rfl⟩
  | cons e l ih => exact ih (r.expireOne e)

/-- The devices of the entries `p` selects are no two the same. -/
theorem Counters.nodup_devs (h : r.Counters) (p : TopicId → Bool) :
    ((r.freshOrder.entries.filter fun x => p x.2).map fun x => x.1.2).Nodup := by
  refine List.Nodup.map_on ?_ (r.freshOrder.nodupKeys.nodup.filter _)
  intro x hx y hy heq
  have hx' := AList.mem_lookup_iff.mpr (List.mem_filter.mp hx).1
  have hy' := AList.mem_lookup_iff.mpr (List.mem_filter.mp hy).1
  obtain ⟨e, he, hseen, htopic⟩ := h.entries x.1 x.2 hx'
  obtain ⟨e', he', hseen', htopic'⟩ := h.entries y.1 y.2 hy'
  rw [← heq] at he'
  cases he.symm.trans he'
  obtain ⟨⟨xs, xd⟩, xt⟩ := x
  obtain ⟨⟨ys, yd⟩, yt⟩ := y
  simp only at hseen htopic hseen' htopic' heq
  rw [← hseen, ← htopic, ← hseen', ← htopic', heq]

/-- There are at most as many entries of a topic as records. -/
theorem Counters.counting_le (h : r.Counters) (p : TopicId → Bool) :
    (tally r.freshOrder fun _ t => p t) ≤ r.counted fun t _ => p t := by
  have hsub : ((r.freshOrder.entries.filter fun x => p x.2).map fun x => x.1.2) ⊆
      (r.byDev.entries.filter fun x => p x.2.topicId).map Sigma.fst := by
    intro dev hdev
    obtain ⟨x, hx, rfl⟩ := List.mem_map.mp hdev
    obtain ⟨hin, hp⟩ := List.mem_filter.mp hx
    obtain ⟨e, he, -, htopic⟩ := h.entries x.1 x.2 (AList.mem_lookup_iff.mpr hin)
    refine List.mem_map.mpr ⟨⟨x.1.2, e⟩, List.mem_filter.mpr ⟨AList.mem_lookup_iff.mp he, ?_⟩, rfl⟩
    rw [htopic]
    exact hp
  have hle := (List.subperm_of_subset (h.nodup_devs p) hsub).length_le
  rw [List.length_map, List.length_map] at hle
  unfold tally counted tally
  rw [List.countP_eq_length_filter, List.countP_eq_length_filter]
  exact hle

/-- With no stale entry left, the entries are the fresh records. -/
theorem Fresh.lookup_iff (h : r.Fresh now)
    (hexpired : ∀ k t, r.freshOrder.lookup k = some t → now - k.1 < r.cfg.staleAfter)
    (k : Instant × DevId) (t : TopicId) :
    r.freshOrder.lookup k = some t ↔ ∃ e, r.byDev.lookup k.2 = some e ∧ e.lastSeen = k.1 ∧
      e.topicId = t ∧ r.isFresh e now = true := by
  constructor
  · intro hk
    obtain ⟨e, he, hseen, htopic⟩ := h.counters.entries k t hk
    refine ⟨e, he, hseen, htopic, decide_eq_true ?_⟩
    rw [hseen]
    exact hexpired k t hk
  · rintro ⟨e, he, hseen, htopic, hfresh⟩
    by_cases hin : k ∈ r.freshOrder
    · obtain ⟨t', ht'⟩ := Option.isSome_iff_exists.mp (AList.lookup_isSome.mpr hin)
      obtain ⟨-, htopic'⟩ := h.counters.lookup_seen he ht'
      rw [ht', ← htopic', htopic]
    · have hstale := h.stale k.2 e (Option.some_ne_none _) he (hseen ▸ hin)
      exact absurd (of_decide_eq_true hfresh) hstale

/-- The number of entries that are left is the number of fresh records. -/
theorem Fresh.tally_eq (h : r.Fresh now)
    (hexpired : ∀ k t, r.freshOrder.lookup k = some t → now - k.1 < r.cfg.staleAfter)
    (p : TopicId → Bool) :
    (tally r.freshOrder fun _ t => p t) = tally r.byDev fun _ e => p e.topicId && r.isFresh e now := by
  have hnodup : ((r.byDev.entries.filter fun x => p x.2.topicId && r.isFresh x.2 now).map
      Sigma.fst).Nodup :=
    (List.filter_sublist.map Sigma.fst).nodup r.byDev.nodupKeys
  have hperm := (List.perm_ext_iff_of_nodup (h.counters.nodup_devs p) hnodup).mpr fun dev => by
    constructor
    · intro hdev
      obtain ⟨x, hx, rfl⟩ := List.mem_map.mp hdev
      obtain ⟨hin, hp⟩ := List.mem_filter.mp hx
      obtain ⟨e, he, -, htopic, hfresh⟩ :=
        (h.lookup_iff hexpired x.1 x.2).mp (AList.mem_lookup_iff.mpr hin)
      refine List.mem_map.mpr ⟨⟨x.1.2, e⟩, List.mem_filter.mpr ⟨AList.mem_lookup_iff.mp he, ?_⟩, rfl⟩
      rw [htopic, hp, hfresh]
      rfl
    · intro hdev
      obtain ⟨⟨dev, e⟩, hx, rfl⟩ := List.mem_map.mp hdev
      obtain ⟨hin, hsel⟩ := List.mem_filter.mp hx
      obtain ⟨hp, hfresh⟩ := Bool.and_eq_true_iff.mp hsel
      have hk := (h.lookup_iff hexpired (e.lastSeen, dev) e.topicId).mpr
        ⟨e, AList.mem_lookup_iff.mpr hin, rfl, rfl, hfresh⟩
      exact List.mem_map.mpr ⟨⟨(e.lastSeen, dev), e.topicId⟩,
        List.mem_filter.mpr ⟨AList.mem_lookup_iff.mp hk, hp⟩, rfl⟩
  have hlen := hperm.length_eq
  rw [List.length_map, List.length_map] at hlen
  unfold tally
  rw [List.countP_eq_length_filter, List.countP_eq_length_filter]
  exact hlen

end Expired

end Registry

end UConnect.Server
