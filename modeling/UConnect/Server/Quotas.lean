/-
  Server/Quotas.lean --- the registry's quotas.

  Each address has a count of its records in a topic, of all its records and of
  its relay bindings.  The counts go up in one place and down in several,
  through a helper that ignores a missing key; they are exact all the same, no
  limit is passed, and a call that is refused has changed nothing but the count
  of refusals.
-/
import UConnect.Foundation.Tally
import UConnect.Server.RelayMoves

set_option autoImplicit false

namespace UConnect.Server

open UConnect UConnect.Foundation UConnect.Crypto

/-! ## Maps of counts

A map with no entry at zero, compared with a function: counting up and down keep
them equal. -/

section Counts

variable {κ : Type} [DecidableEq κ] {c : AList fun _ : κ => Nat} {f g : κ → Nat} {k : κ}

/-- The map holds what `f` counts, and nothing where `f` counts none. -/
def Exact (c : AList fun _ : κ => Nat) (f : κ → Nat) : Prop :=
  ∀ k, c.lookup k = if f k = 0 then none else some (f k)

theorem exact_empty : Exact (∅ : AList fun _ : κ => Nat) fun _ => 0 := by
  intro k
  rw [AList.lookup_empty, if_pos rfl]

theorem Exact.congr (h : Exact c f) (hfg : ∀ k, g k = f k) : Exact c g := by
  intro k
  rw [hfg k]
  exact h k

/-- A missing key counts as zero. -/
theorem Exact.getD (h : Exact c f) (k : κ) : (c.lookup k).getD 0 = f k := by
  rw [h k]
  split
  · rename_i hzero
    rw [hzero]
    rfl
  · rfl

/-- Counting one up, where the function goes up by one at this key. -/
theorem Exact.increment (h : Exact c f) (hg : ∀ k', g k' = f k' + if k = k' then 1 else 0) :
    Exact (increment c k) g := by
  intro k'
  unfold Server.increment
  rw [lookup_insert_ite, hg k', h.getD k]
  split
  · rename_i heq
    subst heq
    rw [if_pos rfl, if_neg (Nat.succ_ne_zero _)]
  · rename_i hne
    rw [if_neg (Ne.symm hne), Nat.add_zero]
    exact h k'

/-- Counting one down; the key goes with its last count. -/
theorem Exact.decrement (h : Exact c f) (hg : ∀ k', g k' + (if k = k' then 1 else 0) = f k') :
    Exact (decrement c k) g := by
  have hself := hg k
  rw [if_pos rfl] at hself
  have hfind : c.lookup k = some (f k) := by
    rw [h k, if_neg (by omega)]
  have hother : ∀ k', k' ≠ k → g k' = f k' := by
    intro k' hne
    have hk := hg k'
    rwa [if_neg (Ne.symm hne), Nat.add_zero] at hk
  intro k'
  unfold Server.decrement
  rw [hfind]
  dsimp only
  split
  · rename_i hlast
    rw [lookup_erase_ite]
    split
    · rename_i heq
      rw [heq, if_pos (by omega)]
    · rename_i hne
      rw [hother k' hne]
      exact h k'
  · rename_i hmore
    rw [lookup_insert_ite]
    split
    · rename_i heq
      rw [heq, if_neg (by omega), ← hself, Nat.add_sub_cancel]
    · rename_i hne
      rw [hother k' hne]
      exact h k'

/-- A count below its limit, or none at all, leaves room for one more. -/
theorem Exact.room (h : Exact c f) {limit : Nat} (hpos : 0 < limit)
    (hbelow : ∀ n ∈ c.lookup k, n < limit) : f k < limit := by
  rcases Nat.eq_zero_or_pos (f k) with hzero | hcount
  · rw [hzero]
    exact hpos
  · refine hbelow (f k) ?_
    rw [h k, if_neg (Nat.ne_of_gt hcount)]
    rfl

end Counts

/-- `validate_config` lets no maximum be zero. -/
structure RegistryConfig.Positive (cfg : RegistryConfig) : Prop where
  perIpPerTopic : 0 < cfg.maxPerIpPerTopic
  perIpTotal : 0 < cfg.maxPerIpTotal
  entries : 0 < cfg.maxEntries
  topics : 0 < cfg.maxTopics
  relays : 0 < cfg.maxRelays
  relaysPerIp : 0 < cfg.maxRelaysPerIp

namespace Registry

/-! ## Records

The counts of an address over all records and within a topic. -/

/-- The records whose topic and address `p` selects. -/
def counted (r : Registry) (p : TopicId → IpKey → Bool) : Nat :=
  tally r.byDev fun _ e => p e.topicId (ipKey e.boundAddr)

/-- The records of an address. -/
def recordsOf (r : Registry) (ik : IpKey) : Nat := r.counted fun _ k => k = ik

/-- The records of an address in a topic. -/
def recordsIn (r : Registry) (t : TopicId) (ik : IpKey) : Nat :=
  r.counted fun t' k => t' = t ∧ k = ik

/-- The counts of records are exact and within the limits. -/
structure RecordQuotas (cfg : RegistryConfig) (r : Registry) : Prop where
  config : r.cfg = cfg
  total : Exact r.perIpTotal r.recordsOf
  topic : ∀ t s, r.topics.lookup t = some s → Exact s.perIp (r.recordsIn t)
  records_le : r.byDev.entries.length ≤ cfg.maxEntries
  topics_le : r.topics.entries.length ≤ cfg.maxTopics
  recordsOf_le : ∀ ik, r.recordsOf ik ≤ cfg.maxPerIpTotal
  recordsIn_le : ∀ t ik, r.recordsIn t ik ≤ cfg.maxPerIpPerTopic

section Records

variable {P : Primitives} {key : SymKey} {known : List (TopicId × Endpoint)} {now : Instant}
  {cfg : RegistryConfig} {r r' : Registry}

theorem length_byDev (r : Registry) : r.byDev.entries.length = r.counted fun _ _ => true :=
  (tally_true _).symm

/-- Nothing is counted at the start. -/
theorem RecordQuotas.init (cfg : RegistryConfig) (secret : SymKey) :
    RecordQuotas cfg { cfg := cfg, secret := secret } where
  config := rfl
  total := exact_empty
  topic _ _ hs := nomatch hs
  records_le := Nat.zero_le _
  topics_le := Nat.zero_le _
  recordsOf_le _ := Nat.zero_le _
  recordsIn_le _ _ := Nat.zero_le _

/-- What keeps the records' topics and addresses and the counts of every topic
keeps the quotas. -/
theorem RecordQuotas.congr (h : r.RecordQuotas cfg) (hcfg : r'.cfg = r.cfg)
    (hcounted : ∀ p, r'.counted p = r.counted p) (htotal : r'.perIpTotal = r.perIpTotal)
    (htopics : ∀ t, (r'.topics.lookup t).map TopicState.perIp =
      (r.topics.lookup t).map TopicState.perIp) : r'.RecordQuotas cfg where
  config := hcfg.trans h.config
  total := by
    rw [htotal]
    exact h.total.congr fun ik => hcounted _
  topic t s hs := by
    have hmap := htopics t
    rw [hs, Option.map_some] at hmap
    obtain ⟨s₀, hs₀, hper⟩ := Option.map_eq_some_iff.mp hmap.symm
    rw [← hper]
    exact (h.topic t s₀ hs₀).congr fun ik => hcounted _
  records_le := by
    rw [length_byDev, hcounted, ← length_byDev]
    exact h.records_le
  topics_le := by
    refine Nat.le_trans (length_le_of_lookup fun t ht => ?_) h.topics_le
    rw [← Option.isSome_map (f := TopicState.perIp), ← htopics t, Option.isSome_map]
    exact ht
  recordsOf_le ik := by
    refine Nat.le_trans (Nat.le_of_eq ?_) (h.recordsOf_le ik)
    exact hcounted _
  recordsIn_le t ik := by
    refine Nat.le_trans (Nat.le_of_eq ?_) (h.recordsIn_le t ik)
    exact hcounted _

/-- A record is written over without moving it. -/
theorem counted_rewrite {dev : DevId} {e e' : Entry} (he : r.byDev.lookup dev = some e)
    (hrec : r'.byDev = r.byDev.insert dev e') (htopic : e'.topicId = e.topicId)
    (haddr : e'.boundAddr = e.boundAddr) (p : TopicId → IpKey → Bool) :
    r'.counted p = r.counted p := by
  unfold counted
  rw [hrec]
  refine tally_insert_same he ?_
  rw [htopic, haddr]

theorem map_perIp_modifyAt_fresh (m : AList fun _ : TopicId => TopicState) (t t' : TopicId)
    (f : Nat → Nat) :
    ((modifyAt m t fun s => { s with fresh := f s.fresh }).lookup t').map TopicState.perIp =
      (m.lookup t').map TopicState.perIp :=
  map_lookup_modifyAt m t t' fun _ => rfl

theorem RecordQuotas.forgetFresh (h : r.RecordQuotas cfg) (e : Entry) :
    (r.forgetFresh e).RecordQuotas cfg := by
  unfold Registry.forgetFresh
  split
  · exact h.congr rfl (fun _ => rfl) rfl fun t => map_perIp_modifyAt_fresh _ _ _ _
  · exact h

/-- Marking a record does not change whom it is counted under. -/
theorem counted_markFresh (r : Registry) (dev : DevId) (now : Instant) (p : TopicId → IpKey → Bool) :
    (r.markFresh dev now).counted p = r.counted p := by
  unfold Registry.markFresh
  cases he : r.byDev.lookup dev with
  | none => rfl
  | some e =>
      have hrec : ∀ r' : Registry, r'.byDev =
          (r.forgetFresh e).byDev.insert dev { e with lastSeen := now } →
          r'.counted p = r.counted p := by
        intro r' hr'
        rw [byDev_forgetFresh] at hr'
        exact counted_rewrite he hr' rfl rfl p
      exact hrec _ rfl

theorem RecordQuotas.markFresh (h : r.RecordQuotas cfg) (dev : DevId) (now : Instant) :
    (r.markFresh dev now).RecordQuotas cfg := by
  have hcount := counted_markFresh r dev now
  unfold Registry.markFresh at hcount ⊢
  cases he : r.byDev.lookup dev with
  | none => exact h
  | some e =>
      rw [he] at hcount
      have hforget : ∀ p, (r.forgetFresh e).counted p = r.counted p := by
        intro p
        unfold counted
        rw [byDev_forgetFresh]
      refine (h.forgetFresh e).congr rfl (fun p => ?_) rfl fun t => map_perIp_modifyAt_fresh _ _ _ _
      rw [hforget]
      exact hcount p

/-! ### A new record -/

theorem counted_addRecord (msg : Register) (src : Endpoint) (owner : ConnKey) {e : Entry}
    (hnew : r.byDev.lookup e.devId = none) (p : TopicId → IpKey → Bool) :
    counted { r.addRecord msg e.devId src owner with byDev := r.byDev.insert e.devId e } p =
      r.counted p + if p e.topicId (ipKey e.boundAddr) then 1 else 0 :=
  tally_insert_new _ _ _ _ hnew

/-- The counts a topic has, or will start from. -/
def perIpAt (r : Registry) (t : TopicId) : AList fun _ : IpKey => Nat :=
  ((r.topics.lookup t).map TopicState.perIp).getD ∅

/-- A topic that does not exist has no records. -/
theorem Sound.recordsIn_absent (h : r.Sound P key known) {t : TopicId}
    (ht : r.topics.lookup t = none) (ik : IpKey) : r.recordsIn t ik = 0 := by
  unfold recordsIn counted
  refine tally_eq_zero fun dev e he => ?_
  refine decide_eq_false fun hsel => ?_
  obtain ⟨m, hm⟩ := h.topics.present dev e.stub (record_eq_stub he)
  have hnone : r.view.topic t = none := by simp only [view, ht, Option.map_none]
  have hsame : e.stub.topicId = t := hsel.1
  rw [hsame, hnone] at hm
  cases hm

/-- The counts within one topic are of the topic's members. -/
theorem RecordQuotas.perIpAt (h : r.RecordQuotas cfg) (hsound : r.Sound P key known)
    (t : TopicId) : Exact (r.perIpAt t) (r.recordsIn t) := by
  unfold Registry.perIpAt
  cases ht : r.topics.lookup t with
  | none => exact exact_empty.congr (hsound.recordsIn_absent ht)
  | some s => exact h.topic t s ht

theorem lookup_addRecord (r : Registry) (msg : Register) (dev : DevId) (src : Endpoint)
    (owner : ConnKey) (t : TopicId) :
    ((r.addRecord msg dev src owner).topics.lookup t).map TopicState.perIp =
      if t = msg.id then some (increment (r.perIpAt msg.id) (ipKey src))
      else (r.topics.lookup t).map TopicState.perIp := by
  have hper : ((r.topics.lookup msg.id).getD {}).perIp = r.perIpAt msg.id := by
    unfold Registry.perIpAt
    cases r.topics.lookup msg.id with
    | none => rfl
    | some s => rfl
  unfold addRecord openTopic
  rw [← hper]
  dsimp only
  split
  · rw [lookup_insert_ite]
    split
    · rfl
    · rfl
  · rw [lookup_insert_ite]
    split
    · rfl
    · rfl

theorem addRecord_frame (r : Registry) (msg : Register) (dev : DevId) (src : Endpoint)
    (owner : ConnKey) :
    (r.addRecord msg dev src owner).cfg = r.cfg ∧
      (r.addRecord msg dev src owner).perIpTotal = increment r.perIpTotal (ipKey src) ∧
      ∃ s, (r.addRecord msg dev src owner).topics = r.topics.insert msg.id s := by
  unfold addRecord openTopic
  dsimp only
  split
  · exact ⟨rfl, rfl, _, rfl⟩
  · exact ⟨rfl, rfl, _, rfl⟩

/-- What `overQuota` lets through. -/
theorem overQuota_eq_false {t : TopicId} {ik : IpKey} (h : r.overQuota t ik = false) :
    r.byDev.entries.length < r.cfg.maxEntries ∧
      (∀ n ∈ r.perIpTotal.lookup ik, n < r.cfg.maxPerIpTotal) ∧
      (∀ n ∈ (r.perIpAt t).lookup ik, n < r.cfg.maxPerIpPerTopic) ∧
      (r.topics.lookup t = none → r.topics.entries.length < r.cfg.maxTopics) := by
  have hbelow : ∀ {o : Option Nat} {limit : Nat}, o.any (· ≥ limit) = false →
      ∀ n ∈ o, n < limit := by
    intro o limit hany n hn
    rw [Option.mem_def.mp hn, Option.any_some, decide_eq_false_iff_not] at hany
    exact Nat.not_le.mp hany
  unfold overQuota at h
  rw [Bool.or_eq_false_iff, Bool.or_eq_false_iff, decide_eq_false_iff_not] at h
  obtain ⟨⟨hall, htotal⟩, htopic⟩ := h
  refine ⟨Nat.not_le.mp hall, hbelow htotal, ?_, ?_⟩
  · unfold Registry.perIpAt
    cases ht : r.topics.lookup t with
    | none =>
        intro n hn
        cases hn
    | some s =>
        rw [ht] at htopic
        exact hbelow htopic
  · intro ht
    rw [ht] at htopic
    exact Nat.not_le.mp (of_decide_eq_false htopic)

/-- A record that was not refused is within every limit once it is there. -/
theorem RecordQuotas.addRecord (h : r.RecordQuotas cfg) (hpos : cfg.Positive)
    (hsound : r.Sound P key known) {msg : Register} {src : Endpoint} {owner : ConnKey} {e : Entry}
    (hnew : r.byDev.lookup e.devId = none) (hquota : r.overQuota msg.id (ipKey src) = false)
    (htopic : e.topicId = msg.id) (haddr : e.boundAddr = src) :
    RecordQuotas cfg
      { r.addRecord msg e.devId src owner with byDev := r.byDev.insert e.devId e } := by
  obtain ⟨hroom, hroomIp, hroomTopic, hroomTopics⟩ := overQuota_eq_false hquota
  obtain ⟨hcfg, htotal, s, htopics⟩ := addRecord_frame r msg e.devId src owner
  rw [h.config] at hroom hroomIp hroomTopic hroomTopics
  have hcount := counted_addRecord msg src owner hnew
  rw [htopic, haddr] at hcount
  have hof : ∀ ik, recordsOf { r.addRecord msg e.devId src owner with
      byDev := r.byDev.insert e.devId e } ik =
        r.recordsOf ik + if ipKey src = ik then 1 else 0 := by
    intro ik
    refine (hcount _).trans ?_
    simp only [decide_eq_true_eq]
    rfl
  have hin : ∀ t ik, recordsIn { r.addRecord msg e.devId src owner with
      byDev := r.byDev.insert e.devId e } t ik =
        r.recordsIn t ik + if msg.id = t ∧ ipKey src = ik then 1 else 0 := by
    intro t ik
    refine (hcount _).trans ?_
    simp only [decide_eq_true_eq]
    rfl
  refine ⟨hcfg.trans h.config, ?_, ?_, ?_, ?_, ?_, ?_⟩
  · rw [show _ = increment r.perIpTotal (ipKey src) from htotal]
    exact h.total.increment hof
  · intro t s' hs'
    have hlook := lookup_addRecord r msg e.devId src owner t
    rw [show (r.addRecord msg e.devId src owner).topics.lookup t = some s' from hs',
      Option.map_some] at hlook
    split at hlook
    · rename_i ht
      subst ht
      rw [Option.some.inj hlook]
      refine (h.perIpAt hsound msg.id).increment fun ik => ?_
      rw [hin msg.id ik]
      simp only [true_and]
    · rename_i hne
      obtain ⟨s₀, hs₀, hper⟩ := Option.map_eq_some_iff.mp hlook.symm
      rw [← hper]
      refine (h.topic t s₀ hs₀).congr fun ik => ?_
      rw [hin t ik, if_neg fun hsame => hne hsame.1.symm, Nat.add_zero]
  · rw [length_byDev, hcount, if_pos rfl, ← length_byDev]
    exact hroom
  · show (r.addRecord msg e.devId src owner).topics.entries.length ≤ cfg.maxTopics
    rw [htopics]
    cases ht : r.topics.lookup msg.id with
    | none =>
        rw [length_insert_new ht]
        exact hroomTopics ht
    | some s₀ =>
        refine Nat.le_trans (length_le_of_lookup fun t hsome => ?_) h.topics_le
        rw [lookup_insert_ite] at hsome
        split at hsome
        · rename_i heq
          rw [heq, ht]
          rfl
        · exact hsome
  · intro ik
    rw [hof]
    split
    · rename_i heq
      subst heq
      exact h.total.room hpos.perIpTotal hroomIp
    · exact h.recordsOf_le ik
  · intro t ik
    rw [hin]
    split
    · rename_i hsame
      obtain ⟨rfl, rfl⟩ := hsame
      exact (h.perIpAt hsound msg.id).room hpos.perIpPerTopic hroomTopic
    · exact h.recordsIn_le t ik

/-! ### A record less -/

/-- The topics after a member has left: the count of its address is one less. -/
theorem lookup_leaveTopic {dev : DevId} {e : Entry} {t : TopicId} {s' : TopicState}
    (h : (r.leaveTopic dev e).topics.lookup t = some s') :
    ∃ s, r.topics.lookup t = some s ∧ s'.fresh = s.fresh ∧
      s'.perIp = if t = e.topicId then decrement s.perIp (ipKey e.boundAddr) else s.perIp := by
  unfold leaveTopic at h
  cases hs : r.topics.lookup e.topicId with
  | none =>
      rw [hs] at h
      refine ⟨s', h, rfl, ?_⟩
      rw [if_neg]
      rintro rfl
      cases hs.symm.trans h
  | some s =>
      obtain ⟨hper, hfresh⟩ : (s.removeMember dev).perIp = s.perIp ∧
          (s.removeMember dev).fresh = s.fresh := by
        unfold TopicState.removeMember
        split
        · exact ⟨rfl, rfl⟩
        · exact ⟨rfl, rfl⟩
      rw [hs] at h
      dsimp only at h
      split at h
      · rw [lookup_erase_ite] at h
        split at h
        · cases h
        · rename_i hne
          exact ⟨s', h, rfl, (if_neg hne).symm⟩
      · rw [lookup_insert_ite] at h
        split at h
        · rename_i heq
          cases h
          refine ⟨s, heq ▸ hs, hfresh, ?_⟩
          rw [if_pos heq, ← hper]
        · rename_i hne
          exact ⟨s', h, rfl, (if_neg hne).symm⟩

theorem leaveTopic_frame (r : Registry) (dev : DevId) (e : Entry) :
    (r.leaveTopic dev e).cfg = r.cfg ∧ (r.leaveTopic dev e).perIpTotal = r.perIpTotal := by
  unfold leaveTopic
  split
  · exact ⟨rfl, rfl⟩
  · dsimp only
    split
    · exact ⟨rfl, rfl⟩
    · exact ⟨rfl, rfl⟩

/-- One record less, and its counts with it. -/
theorem RecordQuotas.less (h : r.RecordQuotas cfg) {dev : DevId} {e : Entry}
    (he : r.byDev.lookup dev = some e) (hcfg : r'.cfg = r.cfg)
    (hrec : r'.byDev = r.byDev.erase dev)
    (htotal : r'.perIpTotal = decrement r.perIpTotal (ipKey e.boundAddr))
    (htopics : ∀ t s', r'.topics.lookup t = some s' → ∃ s, r.topics.lookup t = some s ∧
      s'.perIp = if t = e.topicId then decrement s.perIp (ipKey e.boundAddr) else s.perIp) :
    r'.RecordQuotas cfg := by
  have hcount : ∀ p, r'.counted p + (if p e.topicId (ipKey e.boundAddr) then 1 else 0) =
      r.counted p := by
    intro p
    have herase := tally_erase_add r.byDev dev fun _ e => p e.topicId (ipKey e.boundAddr)
    rw [he, Option.any_some] at herase
    unfold counted
    rw [hrec]
    exact herase
  have hof : ∀ ik, r'.recordsOf ik + (if ipKey e.boundAddr = ik then 1 else 0) =
      r.recordsOf ik := by
    intro ik
    have hik := hcount fun _ k => k = ik
    simp only [decide_eq_true_eq] at hik
    exact hik
  have hin : ∀ t ik, r'.recordsIn t ik +
      (if e.topicId = t ∧ ipKey e.boundAddr = ik then 1 else 0) = r.recordsIn t ik := by
    intro t ik
    have hik := hcount fun t' k => t' = t ∧ k = ik
    simp only [decide_eq_true_eq] at hik
    exact hik
  refine ⟨hcfg.trans h.config, ?_, ?_, ?_, ?_, ?_, ?_⟩
  · rw [htotal]
    exact h.total.decrement hof
  · intro t s' hs'
    obtain ⟨s, hs, hper⟩ := htopics t s' hs'
    rw [hper]
    split
    · rename_i heq
      refine (h.topic t s hs).decrement fun ik => ?_
      rw [← hin t ik, heq]
      simp only [true_and]
    · rename_i hne
      refine (h.topic t s hs).congr fun ik => ?_
      rw [← hin t ik, if_neg fun hsame => hne hsame.1.symm, Nat.add_zero]
  · rw [length_byDev]
    refine Nat.le_trans (Nat.le_of_add_right_le (Nat.le_of_eq (hcount _))) ?_
    rw [← length_byDev]
    exact h.records_le
  · refine Nat.le_trans (length_le_of_lookup fun t ht => ?_) h.topics_le
    obtain ⟨s', hs'⟩ := Option.isSome_iff_exists.mp ht
    obtain ⟨s, hs, -⟩ := htopics t s' hs'
    rw [hs]
    rfl
  · intro ik
    exact Nat.le_trans (Nat.le_of_add_right_le (Nat.le_of_eq (hof ik))) (h.recordsOf_le ik)
  · intro t ik
    exact Nat.le_trans (Nat.le_of_add_right_le (Nat.le_of_eq (hin t ik))) (h.recordsIn_le t ik)

/-- An erased record leaves all its counts. -/
theorem RecordQuotas.eraseEntry (h : r.RecordQuotas cfg) (dev : DevId) :
    (r.eraseEntry dev).RecordQuotas cfg := by
  unfold Registry.eraseEntry
  cases he : r.byDev.lookup dev with
  | none => exact h
  | some e =>
      have hfound : (r.forgetFresh e).byDev.lookup dev = some e := by
        rw [byDev_forgetFresh, he]
      obtain ⟨hcfg, htotal⟩ := leaveTopic_frame (r.forgetFresh e) dev e
      refine (h.forgetFresh e).less hfound hcfg ?_ ?_ fun t s' hs' => ?_
      · dsimp only
        rw [byDev_leaveTopic]
      · dsimp only
        rw [htotal]
      · obtain ⟨s, hs, -, hper⟩ := lookup_leaveTopic hs'
        exact ⟨s, hs, hper⟩

/-- Every move of the records keeps their quotas. -/
theorem RecordQuotas.move {ms : List Mark} (hpos : cfg.Positive) (hsound : r.Sound P key known)
    (h : r.RecordQuotas cfg) (hm : Move P known now ms r r') : r'.RecordQuotas cfg := by
  cases hm with
  | beside hb =>
      refine h.congr hb.cfg (fun p => ?_) hb.perIpTotal fun t => ?_
      · unfold counted
        rw [hb.byDev]
      · rw [hb.topics]
  | rewrite he _ htopic haddr _ =>
      exact h.congr rfl (counted_rewrite he rfl htopic haddr) rfl fun _ => rfl
  | add hnew hquota _ _ htopic haddr =>
      exact (h.addRecord hpos hsound hnew hquota htopic haddr).markFresh _ now
  | mark he => exact h.markFresh _ now
  | hide =>
      exact h.congr rfl (fun _ => rfl) rfl fun t => map_lookup_modifyAt _ _ t fun _ => rfl
  | erase => exact h.eraseEntry _
  | expire _ _ =>
      exact h.congr rfl (fun _ => rfl) rfl fun t => map_perIp_modifyAt_fresh _ _ _ _

end Records

/-! ## Bindings

The counts of an address over the bindings it has allocated. -/

/-- The bindings counted for an address. -/
def bindingsOf (r : Registry) (ik : IpKey) : Nat := tally r.relays fun _ b => b.countedIp = ik

/-- The counts of bindings are exact and within the limits. -/
structure BindingQuotas (cfg : RegistryConfig) (r : Registry) : Prop where
  config : r.cfg = cfg
  counts : Exact r.relaysPerIp r.bindingsOf
  relays_le : r.relays.entries.length ≤ cfg.maxRelays
  bindingsOf_le : ∀ ik, r.bindingsOf ik ≤ cfg.maxRelaysPerIp

section Bindings

variable {cfg : RegistryConfig} {r r' : Registry}

theorem BindingQuotas.init (cfg : RegistryConfig) (secret : SymKey) :
    BindingQuotas cfg { cfg := cfg, secret := secret } where
  config := rfl
  counts := exact_empty
  relays_le := Nat.zero_le _
  bindingsOf_le _ := Nat.zero_le _

/-- Bindings that stay counted where they were. -/
theorem BindingQuotas.congr (h : r.BindingQuotas cfg) (hcfg : r'.cfg = r.cfg)
    (hper : r'.relaysPerIp = r.relaysPerIp)
    (hcount : ∀ p : IpKey → Bool, (tally r'.relays fun _ b => p b.countedIp) =
      tally r.relays fun _ b => p b.countedIp) : r'.BindingQuotas cfg where
  config := hcfg.trans h.config
  counts := by
    rw [hper]
    exact h.counts.congr fun ik => hcount fun k => k = ik
  relays_le := by
    have hall := hcount fun _ => true
    rw [tally_true, tally_true] at hall
    rw [hall]
    exact h.relays_le
  bindingsOf_le ik := by
    refine Nat.le_trans (Nat.le_of_eq ?_) (h.bindingsOf_le ik)
    exact hcount fun k => k = ik

/-- A binding is written over. -/
theorem BindingQuotas.rewrite (h : r.BindingQuotas cfg) {id : RelayId} {b b' : Relay}
    (hb : r.relays.lookup id = some b)
    (hslots : r'.slots = (r.cfg, r.relays.insert id b', r.relaysPerIp))
    (hip : b'.countedIp = b.countedIp) :
    r'.BindingQuotas cfg := by
  obtain ⟨hcfg, hrelays, hper⟩ := slots_eq hslots
  refine h.congr hcfg hper fun p => ?_
  rw [hrelays]
  refine tally_insert_same hb ?_
  rw [hip]

/-- Every move of the slots keeps the quotas of bindings. -/
theorem BindingQuotas.move (hpos : cfg.Positive) {ms : List RelayMark} (h : r.BindingQuotas cfg)
    (hm : RelayMove ms r r') : r'.BindingQuotas cfg := by
  cases hm with
  | same hslots =>
      obtain ⟨hcfg, hrelays, hper⟩ := slots_eq hslots
      refine h.congr hcfg hper fun p => ?_
      rw [hrelays]
  | touch hb hslots => exact h.rewrite hb hslots rfl
  | bind hb _ hslots => exact h.rewrite hb hslots rfl
  | charge hb _ _ hslots => exact h.rewrite hb hslots rfl
  | refuse hb hslots => exact h.rewrite hb hslots rfl
  | @make _ _ id b src peer hnew _ _ _ _ _ _ hmax hip hslots =>
      obtain ⟨hcfg, hrelays, hper⟩ := slots_eq hslots
      have hnone : r.relays.lookup id = none := AList.lookup_eq_none.mpr hnew
      rw [h.config] at hcfg hmax hip
      have hof : ∀ ik, r'.bindingsOf ik = r.bindingsOf ik + if b.countedIp = ik then 1 else 0 := by
        intro ik
        unfold bindingsOf
        rw [hrelays, tally_insert_new _ _ _ _ hnone]
        simp only [decide_eq_true_eq]
      refine ⟨hcfg, ?_, ?_, fun ik => ?_⟩
      · rw [hper]
        exact h.counts.increment hof
      · rw [hrelays, length_insert_new hnone]
        exact hmax
      · rw [hof]
        split
        · rename_i heq
          subst heq
          exact h.counts.room hpos.relaysPerIp hip
        · exact h.bindingsOf_le ik
  | @release _ id b hb =>
      have hof : ∀ ik, (r.releaseRelay ⟨id, b⟩).bindingsOf ik +
          (if b.countedIp = ik then 1 else 0) = r.bindingsOf ik := by
        intro ik
        have herase := tally_erase_add r.relays id fun _ b => decide (b.countedIp = ik)
        rw [hb, Option.any_some] at herase
        simp only [decide_eq_true_eq] at herase
        exact herase
      refine ⟨h.config, h.counts.decrement hof, ?_, fun ik => ?_⟩
      · refine Nat.le_trans (length_le_of_lookup fun id' hid' => ?_) h.relays_le
        rw [show (r.releaseRelay ⟨id, b⟩).relays = r.relays.erase id from rfl, lookup_erase_ite] at hid'
        split at hid'
        · cases hid'
        · exact hid'
      · exact Nat.le_trans (Nat.le_of_add_right_le (Nat.le_of_eq (hof ik))) (h.bindingsOf_le ik)

end Bindings

/-! ## Refusals

A refused call leaves everything but the count of refusals. -/

section Refusals

variable {P : Primitives} {r : Registry}

/-- A registration that was refused has counted the refusal and done nothing
else. -/
theorem registerEntry_refused {msg : Register} {src : Endpoint} {owner : ConnKey} {now : Instant}
    (h : (r.registerEntry P msg src owner now).1.code = .quotaExceeded) :
    (r.registerEntry P msg src owner now).2 = r.rejected := by
  unfold registerEntry at h ⊢
  dsimp only at h ⊢
  cases hrec : r.byDev.lookup (deriveDevId P r.secret msg.id src) with
  | some e =>
      rw [hrec] at h
      simp only [Option.isNone_some, Bool.false_and, Bool.false_eq_true, if_false] at h
      cases h
  | none =>
      rw [hrec] at h
      simp only [Option.isNone_none, Bool.true_and] at h ⊢
      split at h
      · rename_i hover
        rw [if_pos hover]
        rfl
      · cases h

/-- And so has an allocation. -/
theorem relayAlloc_refused {src peer : DevId} {kind : RelayKind} {owner : ConnKey}
    {addr : Endpoint} {now : Instant} {draws : RelayDraws} {g : RelayGrant} {r' : Registry}
    (h : r.relayAlloc src peer kind owner addr now draws = some (g, r'))
    (hcode : g.code = .quotaExceeded) : r' = r.rejected := by
  cases allocation h with
  | barred _ hquota => exact absurd hcode hquota
  | full => rfl
  | found => cases hcode
  | made => cases hcode

/-- `refresh`, `update` and `unregister` do nothing for a device that is not
there or is another connection's. -/
theorem refresh_refused {dev : DevId} {owner : ConnKey} {now : Instant}
    (h : (r.refresh dev owner now).1 ≠ .none) : (r.refresh dev owner now).2 = r := by
  unfold refresh at h ⊢
  split
  · rfl
  · rename_i e he
    rw [he] at h
    dsimp only at h
    split
    · rfl
    · rename_i howner
      rw [if_neg howner] at h
      exact absurd rfl h

/-- A refused update has not even been counted. -/
theorem update_refused {msg : Update} {owner : ConnKey} {now : Instant}
    (h : (r.update msg owner now).1 ≠ .none) : (r.update msg owner now).2 = r := by
  unfold update at h ⊢
  split
  · rfl
  · rename_i e he
    rw [he] at h
    dsimp only at h
    split
    · rfl
    · rename_i howner
      rw [if_neg howner] at h
      exact absurd rfl h

theorem unregister_refused {dev : DevId} {owner : ConnKey}
    (h : (r.unregister dev owner).1 ≠ .none) : (r.unregister dev owner).2 = r := by
  unfold unregister at h ⊢
  split
  · rfl
  · rename_i e he
    rw [he] at h
    dsimp only at h
    split
    · rfl
    · rename_i howner
      rw [if_neg howner] at h
      exact absurd rfl h

/-- Refused calls change at most the count of refusals. -/
structure RefusalsAtomic (P : Primitives) (r : Registry) : Prop where
  register : ∀ msg src owner now,
    (r.registerEntry P msg src owner now).1.code = .quotaExceeded →
    (r.registerEntry P msg src owner now).2 = r.rejected
  relayAlloc : ∀ src peer kind owner addr now draws g r',
    r.relayAlloc src peer kind owner addr now draws = some (g, r') →
    g.code = .quotaExceeded → r' = r.rejected
  refresh : ∀ dev owner now, (r.refresh dev owner now).1 ∈ [.notFound, .badAuth] →
    (r.refresh dev owner now).2 = r
  update : ∀ msg owner now, (r.update msg owner now).1 ∈ [.notFound, .badAuth] →
    (r.update msg owner now).2 = r
  unregister : ∀ dev owner, (r.unregister dev owner).1 ∈ [.notFound, .badAuth] →
    (r.unregister dev owner).2 = r

/-- Every operation that can refuse, in one statement. -/
theorem refusalsAtomic (P : Primitives) (r : Registry) : r.RefusalsAtomic P := by
  have hcode : ∀ {c : ErrorCode}, c ∈ [ErrorCode.notFound, .badAuth] → c ≠ .none := by
    rintro c hc rfl
    simp only [List.mem_cons, List.not_mem_nil, or_false, reduceCtorEq] at hc
  refine ⟨?_, ?_, ?_, ?_, ?_⟩
  · exact fun msg src owner now h => registerEntry_refused h
  · exact fun src peer kind owner addr now draws g r' h hg => relayAlloc_refused h hg
  · exact fun dev owner now h => refresh_refused (hcode h)
  · exact fun msg owner now h => update_refused (hcode h)
  · exact fun dev owner h => unregister_refused (hcode h)

end Refusals

/-! ## Every reachable state

The counts and the limits together, for a configuration whose limits are
positive. -/

/-- In every state a run reaches the counts are exact and within the limits, and
calls that are refused there change at most the count of refusals.  Assumed is
that device ids tell apart the pairs of topic and address the run registers. -/
theorem quotas_exact (P : Primitives) (cfg : RegistryConfig) (hpos : cfg.Positive)
    (secret : SymKey) (ops : List Op) (hsep : Separates P secret (ops.filterMap Op.registers)) :
    let r := run (step P) { cfg := cfg, secret := secret } ops
    r.RecordQuotas cfg ∧ r.BindingQuotas cfg ∧ r.RefusalsAtomic P := by
  intro r
  refine ⟨?_, ?_, refusalsAtomic P r⟩
  · exact (keeps_reachable (I := fun _ r => r.RecordQuotas cfg) hsep (.init cfg secret)
      fun _ _ _ _ _ hs h hm => h.move hpos hs hm).2
  · exact relay_keeps_reachable (I := fun _ r => r.BindingQuotas cfg) (.init cfg secret)
      (fun _ _ _ _ h hm => h.move hpos hm) ops

/-- Two records where one may be held, and the first one leaves. -/
def tightOps : List Op :=
  [.register { id := Vector.replicate 16 1 } { port := 7 } 1 0,
   .register { id := Vector.replicate 16 1 } { port := 8 } 1 0,
   .dropOwner 1]

def tightConfig : RegistryConfig := { maxPerIpPerTopic := 1 }

theorem quotas_exact_sample :
    Separates Primitives.checksum (Vector.replicate 32 0) (tightOps.filterMap Op.registers) ∧
    RecordQuotas tightConfig
      (run (step Primitives.checksum) { cfg := tightConfig, secret := Vector.replicate 32 0 }
        tightOps) ∧
    (run (step Primitives.checksum) { cfg := tightConfig, secret := Vector.replicate 32 0 }
      tightOps).stats.rejQuota = 1 := by
  have hsep : Separates Primitives.checksum (Vector.replicate 32 0)
      (tightOps.filterMap Op.registers) := by
    unfold Separates
    decide +kernel
  have hpos : tightConfig.Positive := by
    constructor <;> decide
  refine ⟨hsep, ?_, by decide +kernel⟩
  exact (quotas_exact Primitives.checksum tightConfig hpos (Vector.replicate 32 0) tightOps hsep).1

end Registry

end UConnect.Server
