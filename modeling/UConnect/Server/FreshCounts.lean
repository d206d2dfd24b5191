/-
  Server/FreshCounts.lean --- what the counts of fresh records say.

  After `list_topics` and `stats` the counts are those of the fresh records, the
  same that `lookup` and `resolve` flag.  A counter is counted down only for an
  entry it counts.  The count of a topic has 32 bits: from 2^32 fresh members on
  it is their number modulo that.
-/
import UConnect.Server.Freshness
import UConnect.Server.ListingWalk

set_option autoImplicit false

namespace UConnect.Server

open UConnect UConnect.Foundation UConnect.Crypto

namespace Registry

/-! ## Counting down

Every place that takes the counters down, with the registry it does so in: the
count is positive there, so neither counter ever wraps below zero. -/

/-- A topic's counter and the total, just before both are counted down. -/
structure CountDown where
  topic : TopicId
  fresh : Nat
  total : Nat

/-- The counters that would be counted down for a record of the topic. -/
def countDown (r : Registry) (t : TopicId) : CountDown :=
  ⟨t, ((r.topics.lookup t).map TopicState.fresh).getD 0, r.stats.entriesFresh⟩

/-- `forget_fresh` counts down for a record that is counted. -/
def forgetDowns (r : Registry) (e : Entry) : List CountDown :=
  if (e.lastSeen, e.devId) ∈ r.freshOrder then [r.countDown e.topicId] else []

/-- The loop of `expire_fresh` counts down for every entry. -/
def expireDowns : Registry → List (Σ _ : Instant × DevId, TopicId) → List CountDown
  | _, [] => []
  | r, e :: es => r.countDown e.2 :: expireDowns (r.expireOne e) es

/-- The loop of `drop_owner` erases one record after the other. -/
def dropDowns : Registry → List DevId → List CountDown
  | _, [] => []
  | r, dev :: devs =>
      ((r.byDev.lookup dev).map r.forgetDowns).getD [] ++ dropDowns (r.eraseEntry dev) devs

/-- Every counting down of a call, in order. -/
def countDowns (P : Primitives) (r : Registry) : Op → List CountDown
  | .register msg src owner _ =>
      let dev := deriveDevId P r.secret msg.id src
      match r.byDev.lookup dev with
      | some e => r.forgetDowns e
      | none =>
          if r.overQuota msg.id (ipKey src) then []
          else (r.addRecord msg dev src owner).forgetDowns (recordOf msg dev src owner 0)
  | .refresh dev owner _ =>
      match r.byDev.lookup dev with
      | some e => if e.owner ≠ owner then [] else r.forgetDowns e
      | none => []
  | .update msg owner _ =>
      match r.byDev.lookup msg.devId with
      | some e => if e.owner ≠ owner then [] else r.forgetDowns e
      | none => []
  | .unregister dev owner =>
      match r.byDev.lookup dev with
      | some e => if e.owner ≠ owner then [] else r.forgetDowns e
      | none => []
  | .dropOwner owner => dropDowns r (r.owned owner)
  | .listTopics _ _ now => expireDowns r (r.staleEntries now)
  | .sweep now => expireDowns r (r.staleEntries now)
  | .stats now => expireDowns r (r.staleEntries now)
  | _ => []

/-- The records of a topic. -/
def membersOf (r : Registry) (t : TopicId) : Nat := r.counted fun t' _ => t' = t

/-- Neither counter is zero; a topic's may be with 2^32 members or more, when
its range is exceeded. -/
def CountDown.Above (members : TopicId → Nat) (c : CountDown) : Prop :=
  (members c.topic < 2 ^ 32 → 0 < c.fresh) ∧ 0 < c.total

section Downs

variable {P : Primitives} {key : SymKey} {known : List (TopicId × Endpoint)} {r : Registry}
  {members : TopicId → Nat}

/-- What counting down relies on: exact counters, and not more records than
`members` says or the total has room for. -/
structure Countable (P : Primitives) (key : SymKey) (known : List (TopicId × Endpoint))
    (members : TopicId → Nat) (r : Registry) : Prop where
  sound : r.Sound P key known
  counters : r.Counters
  members_le : ∀ t, r.membersOf t ≤ members t
  records_lt : r.byDev.entries.length < 2 ^ 64

/-- Where an entry is in the order, both its counters are positive, so counting
down does not wrap. -/
theorem Countable.above (h : r.Countable P key known members) {k : Instant × DevId} {t : TopicId}
    (hk : r.freshOrder.lookup k = some t) : (r.countDown t).Above members := by
  obtain ⟨e, he, -, htopic⟩ := h.counters.entries k t hk
  obtain ⟨m, hm⟩ := h.sound.topics.present k.2 e.stub (record_eq_stub he)
  have hlook : (r.topics.lookup t).map TopicState.roll = some m := by
    rw [← htopic]
    exact hm
  obtain ⟨s, hs, -⟩ := Option.map_eq_some_iff.mp hlook
  have hpos : 0 < r.counting t := tally_pos.mpr ⟨k, t, hk, decide_eq_true rfl⟩
  refine ⟨fun hfew => ?_, ?_⟩
  · have hle := Nat.le_trans (h.counters.counting_le fun t' => t' = t) (h.members_le t)
    have hlt : r.counting t < 2 ^ 32 := Nat.lt_of_le_of_lt hle hfew
    show 0 < ((r.topics.lookup t).map TopicState.fresh).getD 0
    rw [hs, Option.map_some, Option.getD_some, h.counters.topics t s hs, Nat.mod_eq_of_lt hlt]
    exact hpos
  · have hle := h.counters.counting_le fun _ => true
    rw [tally_true, ← length_byDev] at hle
    have hall : r.counting t ≤ r.freshOrder.entries.length := tally_le_length
    show 0 < r.stats.entriesFresh
    rw [h.counters.total, Nat.mod_eq_of_lt (Nat.lt_of_le_of_lt hle h.records_lt)]
    omega

/-- Forgetting a record. -/
theorem Countable.forgetDowns (h : r.Countable P key known members) {dev : DevId} {e : Entry}
    (he : r.byDev.lookup dev = some e) : ∀ c ∈ r.forgetDowns e, c.Above members := by
  intro c hc
  have hid : e.devId = dev := (h.sound.topics.derived dev e.stub (record_eq_stub he)).1
  unfold Registry.forgetDowns at hc
  split at hc
  · rename_i hin
    obtain ⟨t, ht⟩ := Option.isSome_iff_exists.mp (AList.lookup_isSome.mpr hin)
    rw [hid] at ht
    obtain ⟨-, rfl⟩ := h.counters.lookup_seen he ht
    rw [List.mem_singleton.mp hc]
    exact h.above ht
  · cases hc

theorem Countable.expireOne (h : r.Countable P key known members)
    {e : Σ _ : Instant × DevId, TopicId} (he : e ∈ r.freshOrder.entries) :
    (r.expireOne e).Countable P key known members where
  sound := h.sound.of_view (view_expireOne r e)
  counters := h.counters.uncount (AList.mem_lookup_iff.mpr he)
  members_le := h.members_le
  records_lt := h.records_lt

/-- The rounds of `expire_fresh`, each in the registry the last one has left. -/
theorem Countable.expireDowns {l : List (Σ _ : Instant × DevId, TopicId)}
    (hnodup : (l.map Sigma.fst).Nodup) (h : r.Countable P key known members)
    (hmem : ∀ e ∈ l, e ∈ r.freshOrder.entries) :
    ∀ c ∈ r.expireDowns l, c.Above members := by
  induction l generalizing r with
  | nil =>
      intro c hc
      cases hc
  | cons e l ih =>
      rw [List.map_cons, List.nodup_cons] at hnodup
      have hfirst := hmem e List.mem_cons_self
      intro c hc
      rcases List.mem_cons.mp hc with rfl | hc
      · exact h.above (AList.mem_lookup_iff.mpr hfirst)
      · refine ih hnodup.2 (h.expireOne hfirst) (fun e' he' => ?_) c hc
        have hne : e'.1 ≠ e.1 := fun heq => hnodup.1 (heq ▸ List.mem_map_of_mem he')
        have hold := AList.mem_lookup_iff.mpr (hmem e' (List.mem_cons_of_mem _ he'))
        exact AList.mem_lookup_iff.mp ((AList.lookup_erase_ne hne).trans hold)

/-- Erasing a record leaves fewer of every kind. -/
theorem counted_eraseEntry_le (r : Registry) (dev : DevId) (p : TopicId → IpKey → Bool) :
    (r.eraseEntry dev).counted p ≤ r.counted p := by
  have hsame : (tally (r.eraseEntry dev).byDev fun _ e => p e.topicId (ipKey e.boundAddr)) =
      tally (r.byDev.erase dev) fun _ e => p e.topicId (ipKey e.boundAddr) := by
    refine tally_of_lookup fun dev' => ?_
    rw [lookup_eraseEntry, lookup_erase_ite]
  have hle := tally_erase_add r.byDev dev fun _ e => p e.topicId (ipKey e.boundAddr)
  show (tally (r.eraseEntry dev).byDev fun _ e => p e.topicId (ipKey e.boundAddr)) ≤
    tally r.byDev fun _ e => p e.topicId (ipKey e.boundAddr)
  rw [hsame]
  omega

/-- The records of a connection that ends. -/
theorem Countable.dropDowns {asked : Instant} (h : r.Countable P key known members)
    (hfresh : r.Fresh asked) (devs : List DevId) : ∀ c ∈ r.dropDowns devs, c.Above members := by
  induction devs generalizing r with
  | nil =>
      intro c hc
      cases hc
  | cons dev devs ih =>
      have hfresh' := hfresh.eraseEntry h.sound dev
      have hnext : (r.eraseEntry dev).Countable P key known members := by
        refine ⟨h.sound.move (Move.erase : Move P known 0 [] r (r.eraseEntry dev)), hfresh'.counters, fun t => ?_, ?_⟩
        · exact Nat.le_trans (counted_eraseEntry_le r dev _) (h.members_le t)
        · rw [length_byDev]
          refine Nat.lt_of_le_of_lt (counted_eraseEntry_le r dev _) ?_
          rw [← length_byDev]
          exact h.records_lt
      intro c hc
      rcases List.mem_append.mp hc with hc | hc
      · cases he : r.byDev.lookup dev with
        | none =>
            rw [he] at hc
            cases hc
        | some e =>
            rw [he] at hc
            exact h.forgetDowns he c hc
      · exact ih hnext hfresh' c hc

/-- A registration, refresh, update or removal counts down for a record that is
there. -/
theorem Countable.ownDowns (h : r.Countable P key known members) (dev : DevId) (owner : ConnKey) :
    ∀ c ∈ (match r.byDev.lookup dev with
      | some e => if e.owner ≠ owner then [] else r.forgetDowns e
      | none => []), c.Above members := by
  intro c hc
  cases he : r.byDev.lookup dev with
  | none =>
      rw [he] at hc
      cases hc
  | some e =>
      simp only [he] at hc
      split at hc
      · cases hc
      · exact h.forgetDowns he c hc

/-- Whatever a call counts down is above zero. -/
theorem Countable.countDowns {asked : Instant} (h : r.Countable P key known members)
    (hfresh : r.Fresh asked) (op : Op) : ∀ c ∈ r.countDowns P op, c.Above members := by
  have hexpire : ∀ now, ∀ c ∈ r.expireDowns (r.staleEntries now), c.Above members := fun now =>
    h.expireDowns (nodup_staleEntries r now) fun e he => (mem_staleEntries he).1
  cases op with
  | register msg src owner now =>
      intro c hc
      unfold Registry.countDowns at hc
      dsimp only at hc
      cases he : r.byDev.lookup (deriveDevId P r.secret msg.id src) with
      | some e =>
          simp only [he] at hc
          exact h.forgetDowns he c hc
      | none =>
          simp only [he] at hc
          split at hc
          · cases hc
          · -- a new record has no entry yet
            obtain ⟨horder, -, -⟩ := addRecord_fresh r msg (deriveDevId P r.secret msg.id src) src owner
            unfold Registry.forgetDowns at hc
            split at hc
            · rename_i hin
              rw [horder] at hin
              obtain ⟨t, ht⟩ := Option.isSome_iff_exists.mp (AList.lookup_isSome.mpr hin)
              obtain ⟨e', he', -, -⟩ := h.counters.entries _ t ht
              cases he.symm.trans he'
            · cases hc
  | refresh dev owner now => exact h.ownDowns dev owner
  | update msg owner now => exact h.ownDowns msg.devId owner
  | unregister dev owner => exact h.ownDowns dev owner
  | dropOwner owner => exact h.dropDowns hfresh (r.owned owner)
  | listTopics cursor limit now => exact hexpire now
  | sweep now => exact hexpire now
  | stats now => exact hexpire now
  | _ =>
      intro c hc
      cases hc

end Downs

/-! ## The number of records

The quota on records bounds the number of fresh ones, which the 64-bit counter
therefore holds. -/

section Bounded

variable {P : Primitives} {key : SymKey} {known : List (TopicId × Endpoint)} {now : Instant}
  {cfg : RegistryConfig} {r r' : Registry}

/-- The limit on records is kept. -/
structure Bounded (cfg : RegistryConfig) (r : Registry) : Prop where
  config : r.cfg = cfg
  records : (r.counted fun _ _ => true) ≤ cfg.maxEntries

theorem cfg_markFresh (r : Registry) (dev : DevId) (now : Instant) :
    (r.markFresh dev now).cfg = r.cfg := by
  unfold Registry.markFresh
  split
  · rfl
  · exact cfg_forgetFresh r _

theorem Bounded.markFresh (h : r.Bounded cfg) (dev : DevId) (now : Instant) :
    (r.markFresh dev now).Bounded cfg := by
  refine ⟨(cfg_markFresh r dev now).trans h.config, ?_⟩
  rw [counted_markFresh]
  exact h.records

/-- No move brings the records over their limit. -/
theorem Bounded.move {ms : List Mark} (h : r.Bounded cfg) (hm : Move P known now ms r r') :
    r'.Bounded cfg := by
  cases hm with
  | beside hb =>
      refine ⟨hb.cfg.trans h.config, ?_⟩
      unfold counted
      rw [hb.byDev]
      exact h.records
  | rewrite he _ htopic haddr _ =>
      refine ⟨h.config, ?_⟩
      rw [counted_rewrite he rfl htopic haddr]
      exact h.records
  | @add _ msg src owner e hnew hquota _ _ _ _ =>
      obtain ⟨hroom, -, -, -⟩ := overQuota_eq_false hquota
      obtain ⟨hcfg, -, -⟩ := addRecord_frame r msg e.devId src owner
      have hadd : Bounded cfg { r.addRecord msg e.devId src owner with
          byDev := r.byDev.insert e.devId e } := by
        refine ⟨hcfg.trans h.config, ?_⟩
        rw [counted_addRecord msg src owner hnew, if_pos rfl, ← length_byDev, ← h.config]
        exact hroom
      exact hadd.markFresh _ now
  | mark he => exact h.markFresh _ now
  | hide => exact ⟨h.config, h.records⟩
  | @erase _ dev =>
      refine ⟨?_, Nat.le_trans (counted_eraseEntry_le r dev _) h.records⟩
      unfold Registry.eraseEntry
      split
      · exact h.config
      · rename_i e _
        exact (leaveTopic_frame _ dev e).1.trans ((cfg_forgetFresh r e).trans h.config)
  | expire _ _ => exact ⟨h.config, h.records⟩

end Bounded

/-! ## What is reported

The counts of a listing and of the statistics, and the flags of a lookup, are of
one set of records. -/

section Reports

variable {P : Primitives} {key : SymKey} {known : List (TopicId × Endpoint)} {r : Registry}
  {now : Instant}

/-- A summary is of a topic that is there, and has its count. -/
theorem mem_listFrom {l : List (Σ _ : Nat, TopicId)} {limit : Nat} {x : TopicSummary}
    (hx : x ∈ (r.listFrom limit l).1) :
    ∃ s, r.topics.lookup x.id = some s ∧ x.freshPeers = s.fresh := by
  induction l generalizing limit with
  | nil =>
      unfold listFrom at hx
      cases hx
  | cons e l ih =>
      cases limit with
      | zero =>
          unfold listFrom at hx
          cases hx
      | succ limit =>
          unfold listFrom at hx
          cases hs : r.topics.lookup e.2 with
          | none =>
              simp only [hs] at hx
              exact ih hx
          | some s =>
              simp only [hs] at hx
              split at hx
              · rcases List.mem_cons.mp hx with rfl | hx
                · exact ⟨s, hs, rfl⟩
                · exact ih hx
              · exact ih hx

/-- What `lookup` returns are records, flagged as they are. -/
theorem mem_lookup_entries (hsound : r.Sound P key known) {t : TopicId} {max : Nat} {wantMeta : Bool}
    {s : Sampler} {res : LookupResult} (hres : (r.lookup t max wantMeta now s).1 = some res)
    {x : PeerEntry} (hx : x ∈ res.entries) :
    ∃ e, r.byDev.lookup x.devId = some e ∧ x.stale = !r.isFresh e now := by
  obtain ⟨dev, e, hdev, rfl⟩ := lookup_entry hres hx
  have hid : e.devId = dev := (hsound.topics.derived dev e.stub (record_eq_stub hdev)).1
  refine ⟨e, ?_, rfl⟩
  show r.byDev.lookup e.devId = some e
  rw [hid]
  exact hdev

end Reports

/-- The counts agree with the records at `now`. -/
structure Reported (now : Instant) (r : Registry) : Prop where
  /-- Every summary has the number of fresh members, modulo 2^32. -/
  topics : ∀ cursor limit, ∀ x ∈ (r.listTopics cursor limit now).1.1,
    x.freshPeers = (r.expireFresh now).freshIn x.id now % 2 ^ 32
  /-- The total is their sum over the topics. -/
  total : (r.expireFresh now).stats.entriesFresh =
    ((r.expireFresh now).topics.keys.map fun t => (r.expireFresh now).freshIn t now).sum
  /-- There is one entry for each fresh record, and no other. -/
  order : ∀ k t, (r.expireFresh now).freshOrder.lookup k = some t ↔
    ∃ e, (r.expireFresh now).byDev.lookup k.2 = some e ∧ e.lastSeen = k.1 ∧ e.topicId = t ∧
      now - e.lastSeen < r.cfg.staleAfter
  /-- `resolve` flags as stale what has no entry. -/
  resolve : ∀ dev e, (r.expireFresh now).byDev.lookup dev = some e →
    ∃ x, (r.expireFresh now).resolve dev now = some (e.topicId, x) ∧
      (x.stale = false ↔ (e.lastSeen, dev) ∈ (r.expireFresh now).freshOrder)
  /-- So does `lookup`. -/
  lookup : ∀ t max wantMeta s res,
    ((r.expireFresh now).lookup t max wantMeta now s).1 = some res → ∀ x ∈ res.entries,
    ∃ e, (r.expireFresh now).byDev.lookup x.devId = some e ∧
      (x.stale = false ↔ (e.lastSeen, x.devId) ∈ (r.expireFresh now).freshOrder)

/-- What is reported is read off the invariant once the stale entries are gone. -/
theorem reported_of_fresh {P : Primitives} {key : SymKey} {known : List (TopicId × Endpoint)}
    {now : Instant} {r : Registry} (hsound : r.Sound P key known) (hfresh : r.Fresh now)
    (hrecords : r.byDev.entries.length < 2 ^ 64) : r.Reported now := by
  obtain ⟨hcfg, hbyDev⟩ := expireFresh_frame r now
  have hmoves : Moves P known now [] r (r.expireFresh now) := expireFresh_moves r now
  have hsound' := hsound.moves hmoves
  have hfresh' : (r.expireFresh now).Fresh now :=
    (Moves.keeps (I := fun _ r => r.Sound P key known ∧ r.Fresh now)
      (fun _ _ _ _ h hm => ⟨h.1.move hm, h.2.move (Int.le_refl _) h.1 hm⟩) [] hmoves
      ⟨hsound, hfresh⟩).2
  have hexpired : ∀ k t, (r.expireFresh now).freshOrder.lookup k = some t →
      now - k.1 < (r.expireFresh now).cfg.staleAfter := by
    intro k t hk
    rw [hcfg]
    exact lookup_expireFresh hk
  have hcount := hfresh'.tally_eq hexpired
  have horder := hfresh'.lookup_iff hexpired
  -- a record is flagged as stale unless it has an entry
  have hflag : ∀ dev e, (r.expireFresh now).byDev.lookup dev = some e →
      ((!(r.expireFresh now).isFresh e now) = false ↔
        (e.lastSeen, dev) ∈ (r.expireFresh now).freshOrder) := by
    intro dev e he
    rw [Bool.not_eq_false', ← AList.lookup_isSome, Option.isSome_iff_exists]
    constructor
    · intro his
      exact ⟨e.topicId, (horder (e.lastSeen, dev) e.topicId).mpr ⟨e, he, rfl, rfl, his⟩⟩
    · rintro ⟨t, ht⟩
      obtain ⟨e', he', -, -, his⟩ := (horder (e.lastSeen, dev) t).mp ht
      cases he.symm.trans he'
      exact his
  refine ⟨?_, ?_, ?_, ?_, ?_⟩
  · intro cursor limit x hx
    obtain ⟨s, hs, hx⟩ := mem_listFrom hx
    rw [hx, hfresh'.counters.topics x.id s hs]
    unfold counting freshIn
    rw [hcount fun t => t = x.id]
  · have hlen := hfresh'.counters.counting_le fun _ => true
    rw [tally_true, ← length_byDev, hbyDev] at hlen
    have hall := hcount fun _ => true
    rw [tally_true] at hall
    rw [hfresh'.counters.total, Nat.mod_eq_of_lt (Nat.lt_of_le_of_lt hlen hrecords), hall]
    have hsum := sum_tally_fiber (r.expireFresh now).byDev Entry.topicId
      (fun _ e => true && (r.expireFresh now).isFresh e now) (r.expireFresh now).topics.keys_nodup
      fun dev e he _ => by
        obtain ⟨m, hm⟩ := hsound'.topics.present dev e.stub (record_eq_stub he)
        obtain ⟨s, hs, -⟩ := Option.map_eq_some_iff.mp hm
        refine AList.lookup_isSome.mp ?_
        rw [show (r.expireFresh now).topics.lookup e.topicId = some s from hs]
        rfl
    rw [← hsum]
    refine congrArg List.sum (List.map_congr_left fun t _ => ?_)
    unfold freshIn
    refine tally_congr fun dev e _ => ?_
    rw [Bool.true_and, Bool.and_comm]
  · intro k t
    rw [horder k t]
    unfold isFresh
    simp only [decide_eq_true_eq, hcfg]
  · intro dev e he
    refine ⟨(r.expireFresh now).toEntry e true now, ?_, hflag dev e he⟩
    unfold Registry.resolve
    rw [he]
    rfl
  · intro t max wantMeta s res hres x hx
    obtain ⟨e, he, hstale⟩ := mem_lookup_entries hsound' hres hx
    rw [hstale]
    exact ⟨e, he, hflag x.devId e he⟩

/-- The invariant in every state a run reaches, for a question asked no earlier. -/
theorem fresh_reachable {P : Primitives} (cfg : RegistryConfig) {secret : SymKey} {ops : List Op}
    (hsep : Separates P secret (ops.filterMap Op.registers)) {now : Instant}
    (htimes : ∀ op ∈ ops, ∀ n ∈ op.time, n ≤ now) :
    (run (step P) { cfg := cfg, secret := secret } ops).Sound P secret (ops.filterMap Op.registers) ∧
      (run (step P) { cfg := cfg, secret := secret } ops).Fresh now ∧
      (run (step P) { cfg := cfg, secret := secret } ops).Bounded cfg := by
  have hops : ∀ op ∈ ops, ∀ p ∈ op.registers, p ∈ ops.filterMap Op.registers :=
    fun op hop p hp => List.mem_filterMap.mpr ⟨op, hop, hp⟩
  exact keeps_run_at (C := fun n => n ≤ now) (I := fun _ r => r.Fresh now ∧ r.Bounded cfg)
    ⟨now, Int.le_refl _⟩
    (fun _ hnow _ _ _ _ hs h hm => ⟨h.1.move hnow hs hm, h.2.move hm⟩) hsep hops htimes []
    (Sound.init P cfg secret _) ⟨Fresh.init now cfg secret, rfl, Nat.zero_le _⟩

/-- In every state a run reaches, at a time no earlier than any of the run: the
counts that `list_topics` and `stats` report are those of the records that are
fresh then, the count of a topic modulo 2^32; there is one entry of
`fresh_order_` for each of them and no other, and `lookup` and `resolve` flag
the same ones.  Whatever call comes next counts down no counter that is zero,
except a topic's that has 2^32 members or more. -/
theorem freshness_reported (P : Primitives) (cfg : RegistryConfig) (hmax : cfg.maxEntries < 2 ^ 64)
    (secret : SymKey) (ops : List Op) (hsep : Separates P secret (ops.filterMap Op.registers))
    (now : Instant) (htimes : ∀ op ∈ ops, ∀ n ∈ op.time, n ≤ now) :
    let r := run (step P) { cfg := cfg, secret := secret } ops
    r.Reported now ∧ ∀ op, ∀ c ∈ r.countDowns P op, c.Above r.membersOf := by
  intro r
  obtain ⟨hsound, hfresh, hbounded⟩ := fresh_reachable cfg hsep htimes
  have hrecords : r.byDev.entries.length < 2 ^ 64 := by
    rw [length_byDev]
    exact Nat.lt_of_le_of_lt hbounded.records hmax
  refine ⟨reported_of_fresh hsound hfresh hrecords, fun op => ?_⟩
  exact Countable.countDowns ⟨hsound, hfresh.counters, fun _ => Nat.le_refl _, hrecords⟩ hfresh op

theorem freshness_reported_sample :
    Separates Primitives.checksum (Vector.replicate 32 0) (sampleOps.filterMap Op.registers) ∧
    Reported (seconds 46)
      (run (step Primitives.checksum) { secret := Vector.replicate 32 0 } sampleOps) := by
  have hsep : Separates Primitives.checksum (Vector.replicate 32 0)
      (sampleOps.filterMap Op.registers) := by
    unfold Separates
    decide +kernel
  have htimes : ∀ op ∈ sampleOps, ∀ n ∈ op.time, n ≤ seconds 46 := by
    intro op hop n hn
    simp only [sampleOps, List.mem_cons, List.not_mem_nil, or_false] at hop
    rcases hop with rfl | rfl | rfl | rfl
    all_goals cases hn
    all_goals decide
  refine ⟨hsep, ?_⟩
  exact (freshness_reported Primitives.checksum {} (by decide) (Vector.replicate 32 0) sampleOps hsep
    (seconds 46) htimes).1

/-! ## A crowded topic

The other width: with 2^32 fresh records in one topic the count of the topic has
come round.  A server with room for them can be brought there by registrations
alone. -/

section Crowd

/-- A server with room for the crowd. -/
def crowdConfig : RegistryConfig where
  maxEntries := 2 ^ 40
  maxPerIpTotal := 2 ^ 40
  maxPerIpPerTopic := 2 ^ 40

/-- Primitives whose device ids are the address itself. -/
def plainMac : Primitives where
  aead := Aead.checksum
  hash := Primitives.checksum.hash
  mac _ bs := copyInto 32 ((bs.drop 34).take 16 ++ List.replicate 16 0)
  publicOf := Primitives.checksum.publicOf
  x25519 := Primitives.checksum.x25519

def crowdTopic : TopicId := Vector.replicate 16 1

def crowdKey : SymKey := Vector.replicate 32 0

/-- The address of the `i`th device. -/
def crowdAddr (i : Nat) : Endpoint where
  ip := { family := .v6, bytes := copyInto 16 (beBytes 16 i) }
  port := 7

def crowdOp (i : Nat) : Op := .register { id := crowdTopic } (crowdAddr i) 1 0

/-- `n` devices register for one topic. -/
def crowdOps (n : Nat) : List Op := (List.range n).map crowdOp

/-- With a MAC that is as plain as this one the ids of the crowd can be told. -/
theorem deriveDevId_crowd (i : Nat) :
    deriveDevId plainMac crowdKey crowdTopic (crowdAddr i) = copyInto 16 (beBytes 16 i) := by
  have haddr : ((crowdAddr i).ip.bytes).toList = beBytes 16 i :=
    toList_copyInto (length_beBytes 16 i)
  have hinput : ((ascii "uconnect:v2:devid" ++ crowdTopic.toList ++
      appendEndpoint (crowdAddr i)).drop 34).take 16 = beBytes 16 i := by
    have hlen : (ascii "uconnect:v2:devid" ++ crowdTopic.toList ++ [6]).length = 34 := by decide
    have hsplit : ascii "uconnect:v2:devid" ++ crowdTopic.toList ++ appendEndpoint (crowdAddr i) =
        (ascii "uconnect:v2:devid" ++ crowdTopic.toList ++ [6]) ++ (beBytes 16 i ++ beBytes 2 7) := by
      unfold appendEndpoint
      rw [haddr]
      have htake : (beBytes 16 i).take 16 = beBytes 16 i :=
        List.take_of_length_le (Nat.le_of_eq (length_beBytes 16 i))
      show _ ++ 6 :: ((beBytes 16 i).take 16 ++ beBytes 2 7) = _
      rw [htake, List.append_assoc _ [6]]
      rfl
    rw [hsplit, List.drop_left' hlen, List.take_left' (length_beBytes 16 i)]
  have hmac : (beBytes 16 i ++ List.replicate 16 (0 : UInt8)).length = 32 := by
    rw [List.length_append, length_beBytes, List.length_replicate]
  unfold deriveDevId plainMac
  dsimp only
  rw [hinput, toList_copyInto hmac]
  refine Vector.toList_inj.mp ?_
  rw [toList_copyInto (length_beBytes 16 i)]
  simp [copyInto, length_beBytes]

/-- No two of them are the same. -/
theorem crowd_separate {i j : Nat} (hi : i < 2 ^ 64) (hj : j < 2 ^ 64)
    (h : deriveDevId plainMac crowdKey crowdTopic (crowdAddr i) =
      deriveDevId plainMac crowdKey crowdTopic (crowdAddr j)) : i = j := by
  rw [deriveDevId_crowd, deriveDevId_crowd] at h
  have hbytes := congrArg Vector.toList h
  rw [toList_copyInto (length_beBytes 16 i), toList_copyInto (length_beBytes 16 j)] at hbytes
  have hval := congrArg beVal hbytes
  rwa [beVal_beBytes_of_lt (Nat.lt_trans hi (by decide)),
    beVal_beBytes_of_lt (Nat.lt_trans hj (by decide))] at hval

/-- The pairs the crowd registers. -/
def crowdPairs (n : Nat) : List (TopicId × Endpoint) :=
  (List.range n).map fun i => (crowdTopic, crowdAddr i)

theorem registers_crowdOps (n : Nat) : (crowdOps n).filterMap Op.registers = crowdPairs n := by
  unfold crowdOps crowdPairs
  rw [List.filterMap_map]
  show (List.range n).filterMap (some ∘ fun i => (crowdTopic, crowdAddr i)) = _
  rw [List.filterMap_eq_map]

theorem separates_crowd {n : Nat} (hn : n ≤ 2 ^ 64) : Separates plainMac crowdKey (crowdPairs n) := by
  intro p hp q hq heq
  obtain ⟨i, hi, rfl⟩ := List.mem_map.mp hp
  obtain ⟨j, hj, rfl⟩ := List.mem_map.mp hq
  rw [crowd_separate (Nat.lt_of_lt_of_le (List.mem_range.mp hi) hn)
    (Nat.lt_of_lt_of_le (List.mem_range.mp hj) hn) heq]

/-- `n` devices have come, all at time zero. -/
structure Crowded (known : List (TopicId × Endpoint)) (n : Nat) (r : Registry) : Prop where
  sound : r.Sound plainMac crowdKey known
  quotas : r.RecordQuotas crowdConfig
  count : r.byDev.entries.length = n
  records : ∀ dev e, r.byDev.lookup dev = some e → e.lastSeen = 0 ∧ e.topicId = crowdTopic ∧
    ∃ i < n, dev = deriveDevId plainMac crowdKey crowdTopic (crowdAddr i)

theorem positive_crowdConfig : crowdConfig.Positive := by
  constructor <;> decide

/-- There is no topic but the crowd's. -/
theorem Crowded.topic {known : List (TopicId × Endpoint)} {n : Nat} {r : Registry}
    (h : r.Crowded known n) {t : TopicId} (ht : (r.topics.lookup t).isSome) : t = crowdTopic := by
  obtain ⟨s, hs⟩ := Option.isSome_iff_exists.mp ht
  have hview : r.view.topic t = some s.roll := by simp only [view, hs, Option.map_some]
  obtain ⟨dev, hdev⟩ := List.exists_mem_of_ne_nil _ (h.sound.topics.nonempty t _ hview)
  have hrec := (h.sound.topics.members t _ hview dev).mp hdev
  obtain ⟨stub, hstub, htopic⟩ := Option.map_eq_some_iff.mp hrec
  obtain ⟨e, he, rfl⟩ := Option.map_eq_some_iff.mp hstub
  exact htopic.symm.trans (h.records dev e he).2.1

/-- The next device is new, and there is room for it. -/
theorem Crowded.room {known : List (TopicId × Endpoint)} {n : Nat} {r : Registry}
    (h : r.Crowded known n) (hn : n < 2 ^ 40) :
    r.byDev.lookup (deriveDevId plainMac r.secret crowdTopic (crowdAddr n)) = none ∧
      r.overQuota crowdTopic (ipKey (crowdAddr n)) = false := by
  have hcount : ∀ p, r.counted p < 2 ^ 40 := by
    intro p
    have hle : r.counted p ≤ r.byDev.entries.length := tally_le_length
    rw [h.count] at hle
    omega
  have hroom : ∀ {m : AList fun _ : IpKey => Nat} {f : IpKey → Nat} {limit : Nat}, Exact m f →
      2 ^ 40 ≤ limit → (∀ ik, f ik < 2 ^ 40) → ∀ ik, (m.lookup ik).any (· ≥ limit) = false := by
    intro m f limit hexact hlimit hlt ik
    rw [hexact ik]
    split
    · rfl
    · rw [Option.any_some, decide_eq_false_iff_not]
      exact Nat.not_le.mpr (Nat.lt_of_lt_of_le (hlt ik) hlimit)
  constructor
  · cases he : r.byDev.lookup (deriveDevId plainMac r.secret crowdTopic (crowdAddr n)) with
    | none => rfl
    | some e =>
        obtain ⟨-, -, i, hi, hdev⟩ := h.records _ e he
        rw [h.sound.secret] at hdev
        have heq := crowd_separate (by omega) (by omega) hdev
        omega
  · have hip : 2 ^ 40 ≤ crowdConfig.maxPerIpTotal := Nat.le_refl _
    have htopic : 2 ^ 40 ≤ crowdConfig.maxPerIpPerTopic := Nat.le_refl _
    unfold overQuota
    rw [h.quotas.config, h.count, hroom h.quotas.total hip fun ik => hcount _]
    cases ht : r.topics.lookup crowdTopic with
    | some s =>
        dsimp only
        rw [hroom (h.quotas.topic crowdTopic s ht) htopic fun ik => hcount _]
        simp only [Bool.or_false, decide_eq_false_iff_not]
        show ¬ 2 ^ 40 ≤ n
        omega
    | none =>
        have hnone : r.topics.entries.length ≤ 0 := by
          refine length_le_of_lookup (m := (∅ : AList fun _ : TopicId => TopicState)) fun t hsome => ?_
          rw [h.topic hsome, ht] at hsome
          cases hsome
        simp only [Bool.or_false, Bool.or_eq_false_iff, decide_eq_false_iff_not]
        constructor
        · show ¬ 2 ^ 40 ≤ n
          omega
        · show ¬ 100000 ≤ _
          omega

/-- One more device comes. -/
theorem Crowded.arrive {known : List (TopicId × Endpoint)} {n : Nat} {r : Registry}
    (h : r.Crowded known n) (hn : n < 2 ^ 40) (hsep : Separates plainMac crowdKey known)
    (hknown : (crowdTopic, crowdAddr n) ∈ known) :
    (step plainMac r (crowdOp n)).Crowded known (n + 1) := by
  obtain ⟨hnew, hroom⟩ := h.room hn
  have hop : ∀ p ∈ (crowdOp n).registers, p ∈ known := by
    intro p hp
    cases hp
    exact hknown
  have htime : ∀ m ∈ (crowdOp n).time, m = 0 := by
    intro m hm
    cases hm
    rfl
  obtain ⟨hsound, hquotas⟩ := keeps_step (I := fun _ r => r.RecordQuotas crowdConfig)
    (fun _ _ _ _ hs hq hm => hq.move positive_crowdConfig hs hm) hsep hop htime [] h.sound h.quotas
  have hlook : ∀ dev, (step plainMac r (crowdOp n)).byDev.lookup dev =
      if dev = deriveDevId plainMac r.secret crowdTopic (crowdAddr n) then
        some (recordOf { id := crowdTopic } dev (crowdAddr n) 1 0)
      else r.byDev.lookup dev := by
    intro dev
    show (r.registerEntry plainMac { id := crowdTopic } (crowdAddr n) 1 0).2.byDev.lookup dev = _
    unfold registerEntry
    simp only [hnew, Option.isNone_none, Bool.true_and, hroom, Bool.false_eq_true, if_false, if_true]
    rw [lookup_writeRecord, byDev_addRecord]
    split
    · rename_i heq
      rw [heq]
    · rfl
  rw [h.sound.secret] at hlook hnew
  refine ⟨hsound, hquotas, ?_, ?_⟩
  · have hsame : ∀ e dev, ((step plainMac r (crowdOp n)).byDev.lookup dev).isSome =
        ((r.byDev.insert (deriveDevId plainMac crowdKey crowdTopic (crowdAddr n)) e).lookup
          dev).isSome := by
      intro e dev
      rw [hlook, lookup_insert_ite]
      split
      · rfl
      · rfl
    have hlen : (step plainMac r (crowdOp n)).byDev.entries.length =
        (r.byDev.insert (deriveDevId plainMac crowdKey crowdTopic (crowdAddr n))
          (recordOf { id := crowdTopic } (Vector.replicate 16 0) (crowdAddr n) 1 0)).entries.length :=
      Nat.le_antisymm (length_le_of_lookup fun dev hdev => hsame _ dev ▸ hdev)
        (length_le_of_lookup fun dev hdev => (hsame _ dev).symm ▸ hdev)
    rw [hlen, length_insert_new hnew, h.count]
  · intro dev e he
    rw [hlook] at he
    split at he
    · rename_i heq
      cases he
      exact ⟨rfl, rfl, n, Nat.lt_succ_self n, heq⟩
    · obtain ⟨hseen, htopic, i, hi, hdev⟩ := h.records dev e he
      exact ⟨hseen, htopic, i, Nat.lt_succ_of_lt hi, hdev⟩

/-- The first of the crowd makes the topic. -/
theorem Crowded.marks {known : List (TopicId × Endpoint)} {n : Nat} {r : Registry}
    (h : r.Crowded known n) (hn : n < 2 ^ 40) :
    Registry.marks plainMac r (crowdOp n) = if n = 0 then [.made crowdTopic .open] else [] := by
  obtain ⟨hnew, hroom⟩ := h.room hn
  have hbirth : r.births { id := crowdTopic } = if n = 0 then [.made crowdTopic .open] else [] := by
    unfold births
    split
    · rename_i hin
      rw [if_neg]
      rintro rfl
      obtain ⟨s, hs⟩ := Option.isSome_iff_exists.mp (AList.lookup_isSome.mpr hin)
      have hview : r.view.topic crowdTopic = some s.roll := by simp only [view, hs, Option.map_some]
      obtain ⟨dev, hdev⟩ := List.exists_mem_of_ne_nil _ (h.sound.topics.nonempty _ _ hview)
      have hrec := (h.sound.topics.members _ _ hview dev).mp hdev
      obtain ⟨stub, hstub, -⟩ := Option.map_eq_some_iff.mp hrec
      obtain ⟨e, he, -⟩ := Option.map_eq_some_iff.mp hstub
      obtain ⟨-, -, i, hi, -⟩ := h.records dev e he
      exact Nat.not_lt_zero i hi
    · rename_i hout
      rw [if_pos]
      by_contra hsome
      have hpos : 0 < r.byDev.entries.length := by
        rw [h.count]
        omega
      obtain ⟨⟨dev, e⟩, hmem⟩ := List.exists_mem_of_length_pos hpos
      have he := AList.mem_lookup_iff.mpr hmem
      obtain ⟨m, hm⟩ := h.sound.topics.present dev e.stub (record_eq_stub he)
      obtain ⟨s, hs, -⟩ := Option.map_eq_some_iff.mp hm
      refine hout (AList.lookup_isSome.mp ?_)
      rw [← (h.records dev e he).2.1, show r.topics.lookup e.topicId = some s from hs]
      rfl
  unfold crowdOp
  simp only [Registry.marks, hnew, Option.isSome_none, Bool.false_eq_true, if_false, hroom, hbirth,
    hidings, List.append_nil]

theorem crowdOps_succ (n : Nat) : crowdOps (n + 1) = crowdOps n ++ [crowdOp n] := by
  unfold crowdOps
  rw [List.range_succ, List.map_append]
  rfl

/-- After `n` of them. -/
theorem crowded {known : List (TopicId × Endpoint)} (hsep : Separates plainMac crowdKey known) {n : Nat}
    (hn : n ≤ 2 ^ 40) (hknown : ∀ i < n, (crowdTopic, crowdAddr i) ∈ known) :
    (run (step plainMac) { cfg := crowdConfig, secret := crowdKey } (crowdOps n)).Crowded known n ∧
      history plainMac { cfg := crowdConfig, secret := crowdKey } (crowdOps n) =
        if n = 0 then [] else [.made crowdTopic .open] := by
  induction n with
  | zero =>
      refine ⟨⟨Sound.init _ _ _ _, .init _ _, rfl, ?_⟩, rfl⟩
      intro dev e he
      cases he
  | succ n ih =>
      obtain ⟨hcrowd, hhist⟩ := ih (by omega) fun i hi => hknown i (Nat.lt_succ_of_lt hi)
      rw [crowdOps_succ, run_append, history_append, hhist, history_singleton,
        hcrowd.marks (by omega)]
      refine ⟨hcrowd.arrive (by omega) hsep (hknown n (Nat.lt_succ_self n)), ?_⟩
      rcases Nat.eq_zero_or_pos n with rfl | hpos
      · rfl
      · rw [if_neg (Nat.ne_of_gt hpos), if_neg (Nat.ne_of_gt hpos), if_neg (Nat.succ_ne_zero n)]
        rfl

/-- All of the crowd is fresh at time zero. -/
theorem Crowded.freshIn {known : List (TopicId × Endpoint)} {n : Nat} {r : Registry}
    (h : r.Crowded known n) : (r.expireFresh 0).freshIn crowdTopic 0 = n := by
  obtain ⟨hcfg, hbyDev⟩ := expireFresh_frame r 0
  have hall : (tally r.byDev fun _ e => decide (e.topicId = crowdTopic) &&
      (r.expireFresh 0).isFresh e 0) = tally r.byDev fun _ _ => true := by
    refine tally_congr fun dev e he => ?_
    obtain ⟨hseen, htopic, -⟩ := h.records dev e he
    unfold isFresh
    rw [htopic, hseen, hcfg, h.quotas.config]
    decide
  unfold Registry.freshIn
  rw [hbyDev, hall, tally_true, h.count]

/-- The crowd's topic is on the first page of the listing. -/
theorem Crowded.listed {n : Nat} (hn : n ≤ 2 ^ 40) (hpos : 0 < n) :
    ∃ x ∈ ((run (step plainMac) { cfg := crowdConfig, secret := crowdKey } (crowdOps n)).listTopics
      0 1 0).1.1, x.id = crowdTopic := by
  have hsep := separates_crowd (Nat.le_trans hn (by decide))
  obtain ⟨hcrowd, hhist⟩ := crowded hsep hn fun i hi =>
    List.mem_map.mpr ⟨i, List.mem_range.mpr hi, rfl⟩
  rw [← registers_crowdOps] at hsep
  have hbook := (shelved_reachable crowdConfig hsep).2
  rw [hhist, if_neg (Nat.ne_of_gt hpos)] at hbook
  generalize run (step plainMac) { cfg := crowdConfig, secret := crowdKey } (crowdOps n) = r at hcrowd hbook ⊢
  have hwf := Board.wf_ofMarks [.made crowdTopic .open]
  have hlt : (Board.ofMarks [.made crowdTopic .open]).count < 2 ^ 32 := by decide
  have hpage := hbook.pageOf hwf hlt 0 Nat.one_ne_zero 0
  -- the topic is alive and listed
  obtain ⟨⟨dev, e⟩, hmem⟩ := List.exists_mem_of_length_pos (hcrowd.count ▸ hpos)
  have he := AList.mem_lookup_iff.mpr hmem
  obtain ⟨m, hm⟩ := hcrowd.sound.topics.present dev e.stub (record_eq_stub he)
  obtain ⟨s, hs, -⟩ := Option.map_eq_some_iff.mp hm
  rw [show e.stub.topicId = crowdTopic from (hcrowd.records dev e he).2.1] at hs
  have hstand := hbook.standing hwf hlt hs
  have hlisted : s.listed = true := by
    have heq : some (1, TopicMode.open, true) = some (shelf s) := hstand
    have hshelf := Option.some.inj heq
    exact (congrArg (·.2.2) hshelf).symm
  refine hpage.complete crowdTopic s hs hlisted (Nat.zero_le _) fun hmore => ?_
  -- whatever else is on the page is the topic itself
  obtain ⟨x, hx⟩ := List.exists_mem_of_ne_nil _ (hpage.nonempty hmore)
  have hlive := (hpage.standing x hx).1
  have hhigh := hpage.high hmore x hx
  rwa [hcrowd.topic (AList.lookup_isSome.mpr hlive)] at hhigh

/-- With 2^32 fresh members a topic reports none. -/
theorem crowd_overflows {n : Nat} (hn : n = 2 ^ 32) :
    Separates plainMac crowdKey ((crowdOps n).filterMap Op.registers) ∧
      crowdConfig.maxEntries < 2 ^ 64 ∧ (∀ op ∈ crowdOps n, ∀ m ∈ op.time, m ≤ 0) ∧
      ∃ x ∈ ((run (step plainMac) { cfg := crowdConfig, secret := crowdKey } (crowdOps n)).listTopics
        0 1 0).1.1,
        x.freshPeers ≠ ((run (step plainMac) { cfg := crowdConfig, secret := crowdKey }
          (crowdOps n)).expireFresh 0).freshIn x.id 0 := by
  have hle : n ≤ 2 ^ 40 := by
    rw [hn]
    decide
  have hsep := separates_crowd (Nat.le_trans hle (by decide))
  obtain ⟨hcrowd, -⟩ := crowded hsep hle fun i hi => List.mem_map.mpr ⟨i, List.mem_range.mpr hi, rfl⟩
  rw [← registers_crowdOps] at hsep
  have htimes : ∀ op ∈ crowdOps n, ∀ m ∈ op.time, m ≤ 0 := by
    intro op hop m hm
    obtain ⟨i, -, rfl⟩ := List.mem_map.mp hop
    cases hm
    exact Int.le_refl _
  have hrecords : (run (step plainMac) { cfg := crowdConfig, secret := crowdKey }
      (crowdOps n)).byDev.entries.length < 2 ^ 64 := by
    rw [hcrowd.count, hn]
    decide
  obtain ⟨hsound, hfresh, -⟩ := fresh_reachable crowdConfig hsep htimes
  have hreport := (reported_of_fresh hsound hfresh hrecords).topics 0 1
  have hpos : 0 < n := by
    rw [hn]
    decide
  obtain ⟨x, hx, hid⟩ := Crowded.listed hle hpos
  refine ⟨hsep, by decide, htimes, x, hx, ?_⟩
  rw [hreport x hx, hid, hcrowd.freshIn, hn, Nat.mod_self]
  decide

/-- 2^32 devices register for one topic at one time. -/
theorem crowded_topic_reports_none :
    Separates plainMac crowdKey ((crowdOps (2 ^ 32)).filterMap Op.registers) ∧
      crowdConfig.maxEntries < 2 ^ 64 ∧ (∀ op ∈ crowdOps (2 ^ 32), ∀ m ∈ op.time, m ≤ 0) ∧
      ∃ x ∈ ((run (step plainMac) { cfg := crowdConfig, secret := crowdKey }
        (crowdOps (2 ^ 32))).listTopics 0 1 0).1.1,
        x.freshPeers ≠ ((run (step plainMac) { cfg := crowdConfig, secret := crowdKey }
          (crowdOps (2 ^ 32))).expireFresh 0).freshIn x.id 0 :=
  crowd_overflows rfl

end Crowd

end Registry

end UConnect.Server
