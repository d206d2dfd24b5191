/-
  Server/Samples.lean --- a lookup returns a proper sample of the topic.

  Source: server/registry.cpp, `to_entry`, `lookup` and `resolve`.

  Whichever of the three ways the indexes are drawn in, they are distinct, in
  range and as many as wanted (`pick_spec`), and the rest of `lookup` depends on
  nothing but them (`sampleOf`).  Only the rejection loop can fail to end, and
  it ends exactly when it is given as many different indexes as are wanted
  (`pick_isSome_iff`).  That no index is skipped afterwards is the agreement of
  the containers: every member has its record.
-/
import UConnect.Server.RegistryIndex
import Mathlib.Data.Finset.Card

set_option autoImplicit false

namespace UConnect.Server

open UConnect UConnect.Foundation UConnect.Crypto

namespace Registry

/-! ## The indexes

Three ways to draw them, and one statement about what is drawn. -/

/-- What the random engine is documented to do: `std::shuffle` permutes the
indexes, and the distribution draws from their range. -/
structure Sampler.Fair (s : Sampler) (n : Nat) : Prop where
  shuffle : (s.shuffle (List.range n)).Perm (List.range n)
  draws : ∀ i ∈ s.draws, i < n

/-- The draws are enough: where `lookup` loops, which it does for a sample of no
more than a quarter of the members, they hold as many different indexes as are
wanted. -/
def Sampler.Suffices (s : Sampler) (n want : Nat) : Prop :=
  want * 4 ≤ n → want ≤ s.draws.toFinset.card

instance (s : Sampler) (n want : Nat) : Decidable (s.Suffices n want) :=
  inferInstanceAs (Decidable (want * 4 ≤ n → want ≤ s.draws.toFinset.card))

/-- The loop ends once enough different indexes have been drawn, and not before. -/
theorem rejectionLoop_isSome_iff {want : Nat} {picked draws : List Nat} (hnodup : picked.Nodup)
    (hpicked : picked.length ≤ want) :
    (rejectionLoop want picked draws).isSome ↔ want ≤ (picked ++ draws).toFinset.card := by
  have hcard := List.toFinset_card_of_nodup hnodup
  induction draws generalizing picked with
  | nil =>
      rw [rejectionLoop, List.append_nil, hcard]
      split
      · rename_i hless
        exact iff_of_false Bool.false_ne_true (Nat.not_le.mpr hless)
      · rename_i hall
        exact iff_of_true rfl (Nat.not_lt.mp hall)
  | cons i draws ih =>
      rw [rejectionLoop]
      split
      · rename_i hless
        by_cases hin : i ∈ picked
        · -- an index that was drawn before counts once
          have hsame : (picked ++ i :: draws).toFinset = (picked ++ draws).toFinset := by
            ext j
            simp only [List.mem_toFinset, List.mem_append, List.mem_cons]
            constructor
            · rintro (hj | rfl | hj)
              · exact .inl hj
              · exact .inl hin
              · exact .inr hj
            · exact Or.imp_right Or.inr
          rw [if_pos hin, hsame]
          exact ih hnodup hpicked hcard
        · have hnodup' : (picked ++ [i]).Nodup :=
            hnodup.append (List.nodup_singleton i) (List.disjoint_singleton.mpr hin)
          have hlength : (picked ++ [i]).length ≤ want := by
            rw [List.length_append]
            exact hless
          have hrest := ih hnodup' hlength (List.toFinset_card_of_nodup hnodup')
          rw [if_neg hin]
          rwa [List.append_assoc] at hrest
      · rename_i hall
        have hsub : picked.toFinset ⊆ (picked ++ i :: draws).toFinset := by
          rw [List.toFinset_append]
          exact Finset.subset_union_left
        refine iff_of_true rfl ?_
        calc want ≤ picked.length := Nat.not_lt.mp hall
          _ = picked.toFinset.card := hcard.symm
          _ ≤ (picked ++ i :: draws).toFinset.card := Finset.card_le_card hsub

/-- The draws end exactly when they suffice; the two other ways to draw always
end. -/
theorem pick_isSome_iff {s : Sampler} {n want : Nat} :
    (pick s n want).isSome ↔ s.Suffices n want := by
  unfold pick Sampler.Suffices
  split
  · refine iff_of_true rfl fun hfew => ?_
    have hzero : want = 0 := by omega
    rw [hzero]
    exact Nat.zero_le _
  split
  · exact iff_of_true rfl fun hfew => absurd hfew (by omega)
  · rename_i hmany
    rw [rejectionLoop_isSome_iff List.nodup_nil (Nat.zero_le want), List.nil_append]
    exact ⟨fun h _ => h, fun h => h (Nat.not_lt.mp hmany)⟩

theorem length_rejectionLoop {want : Nat} {picked draws got : List Nat}
    (hpicked : picked.length ≤ want) (h : rejectionLoop want picked draws = some got) :
    got.length = want := by
  induction draws generalizing picked with
  | nil =>
      rw [rejectionLoop] at h
      split at h
      · cases h
      · cases h
        omega
  | cons i draws ih =>
      rw [rejectionLoop] at h
      split at h
      · rename_i hlt
        refine ih ?_ h
        split
        · exact hpicked
        · rw [List.length_append]
          exact hlt
      · cases h
        omega

/-- An index is taken once, and only if it was drawn. -/
theorem rejectionLoop_spec {want n : Nat} {picked draws got : List Nat} (hnodup : picked.Nodup)
    (hpicked : ∀ i ∈ picked, i < n) (hdraws : ∀ i ∈ draws, i < n)
    (h : rejectionLoop want picked draws = some got) : got.Nodup ∧ ∀ i ∈ got, i < n := by
  induction draws generalizing picked with
  | nil =>
      rw [rejectionLoop] at h
      split at h
      · cases h
      · cases h
        exact ⟨hnodup, hpicked⟩
  | cons i draws ih =>
      have hi := hdraws i List.mem_cons_self
      have hrest : ∀ j ∈ draws, j < n := fun j hj => hdraws j (List.mem_cons_of_mem _ hj)
      rw [rejectionLoop] at h
      split at h
      · by_cases hin : i ∈ picked
        · rw [if_pos hin] at h
          exact ih hnodup hpicked hrest h
        · rw [if_neg hin] at h
          refine ih ?_ ?_ hrest h
          · refine List.nodup_append.mpr ⟨hnodup, List.nodup_singleton i, fun a ha b hb => ?_⟩
            rw [List.mem_singleton.mp hb]
            exact fun heq => hin (heq ▸ ha)
          · intro j hj
            rcases List.mem_append.mp hj with hj | hj
            · exact hpicked j hj
            · rw [List.mem_singleton.mp hj]
              exact hi
      · cases h
        exact ⟨hnodup, hpicked⟩

theorem length_pick_le {s : Sampler} {n want : Nat} {picked : List Nat}
    (h : pick s n want = some picked) : picked.length ≤ want := by
  unfold pick at h
  split at h
  · rename_i hall
    cases h
    rw [List.length_range, hall]
  split at h
  · cases h
    exact List.length_take_le _ _
  · exact Nat.le_of_eq (length_rejectionLoop (Nat.zero_le _) h)

/-- The indexes are distinct, in range and as many as wanted, whichever way they
are drawn. -/
theorem pick_spec {s : Sampler} {n want : Nat} (hfair : s.Fair n) (hwant : want ≤ n)
    {picked : List Nat} (h : pick s n want = some picked) :
    picked.Nodup ∧ picked.length = want ∧ ∀ i ∈ picked, i < n := by
  unfold pick at h
  split at h
  · rename_i hall
    cases h
    exact ⟨List.nodup_range, by rw [List.length_range, hall], fun i hi => List.mem_range.mp hi⟩
  split at h
  · cases h
    have hnodup : (s.shuffle (List.range n)).Nodup := hfair.shuffle.nodup_iff.mpr List.nodup_range
    refine ⟨hnodup.sublist (List.take_sublist _ _), ?_, fun i hi => ?_⟩
    · rw [List.length_take, hfair.shuffle.length_eq, List.length_range]
      exact Nat.min_eq_left hwant
    · exact List.mem_range.mp (hfair.shuffle.mem_iff.mp (List.mem_of_mem_take hi))
  · obtain ⟨hnodup, hlt⟩ := rejectionLoop_spec List.nodup_nil nofun hfair.draws h
    exact ⟨hnodup, length_rejectionLoop (Nat.zero_le _) h, hlt⟩

/-! ## The entries

From distinct indexes to distinct records of the topic, the fresh ones first. -/

/-- How many entries a lookup is for: thirty unless it says so, and no more than
a hundred. -/
def asked (max : Nat) : Nat := if max = 0 then 30 else min max 100

theorem asked_eq (max : Nat) :
    (let max := if max = 0 then kLookupDefault else max
      if max > kLookupMax then kLookupMax else max) = asked max := by
  have hdefault : kLookupDefault = 30 := rfl
  have hmost : kLookupMax = 100 := rfl
  unfold asked
  dsimp only
  split
  · rw [if_neg (by omega), hdefault]
  · split <;> omega

/-- The records of the members at these places. -/
def recordsAt (r : Registry) (t : TopicState) (picked : List Nat) : List Entry :=
  picked.filterMap fun i => t.members[i]?.bind r.byDev.lookup

/-- What a lookup makes of the indexes it has drawn. -/
def sampleOf (r : Registry) (t : TopicState) (wantMeta : Bool) (now : Instant)
    (picked : List Nat) : LookupResult :=
  { entries := ((r.recordsAt t picked).filter (r.isFresh · now) ++
      (r.recordsAt t picked).filter (!r.isFresh · now)).map (r.toEntry · wantMeta now)
    total := min t.members.length 0xFFFF
    mode := t.mode }

theorem lookup_eq (r : Registry) {topic : TopicId} {t : TopicState}
    (ht : r.topics.lookup topic = some t) (max : Nat) (wantMeta : Bool) (now : Instant)
    (s : Sampler) :
    (r.lookup topic max wantMeta now s).1 =
      (pick s t.members.length (min (asked max) t.members.length)).map
        (r.sampleOf t wantMeta now) := by
  have hasked := asked_eq max
  dsimp only at hasked
  unfold lookup
  dsimp only
  rw [ht]
  dsimp only
  rw [hasked]
  rfl

/-- What a lookup of a topic is to return. -/
structure Sample (r : Registry) (topic : TopicId) (t : TopicState) (max : Nat) (wantMeta : Bool)
    (now : Instant) (res : LookupResult) : Prop where
  length : res.entries.length = min (asked max) t.members.length
  distinct : (res.entries.map PeerEntry.devId).Nodup
  member : ∀ x ∈ res.entries, x.devId ∈ t.members
  resolved : ∀ x ∈ res.entries, ∃ e, r.resolve x.devId now = some (topic, e) ∧
    x = { e with «meta» := if wantMeta then e.«meta» else [] }
  ordered : ∃ fresh stale, res.entries = fresh ++ stale ∧ (∀ x ∈ fresh, x.stale = false) ∧
    ∀ x ∈ stale, x.stale = true
  cands : ∀ x ∈ res.entries, x.cands.length ≤ 8 ∧ ∃ e, r.byDev.lookup x.devId = some e ∧
    x.cands.head? = some { kind := .srflx, ep := e.boundAddr }
  total : res.total = min t.members.length 65535
  mode : res.mode = t.mode

section Samples

variable {r : Registry} {topic : TopicId} {t : TopicState} {picked : List Nat}

/-- Every place of the member list has its record. -/
theorem Consistent.record_at (h : r.Consistent) (ht : r.topics.lookup topic = some t) {i : Nat}
    (hi : i < t.members.length) :
    ∃ e, t.members[i]? = some e.devId ∧ r.byDev.lookup e.devId = some e ∧ e.topicId = topic := by
  have hmem : t.members[i] ∈ t.members := List.getElem_mem hi
  obtain ⟨e, he, htopic⟩ := ((h.members topic t ht).2 _).mp hmem
  have hdev := h.filed _ e he
  refine ⟨e, ?_, hdev ▸ he, htopic⟩
  rw [List.getElem?_eq_getElem hi, hdev]

theorem Consistent.length_recordsAt (h : r.Consistent) (ht : r.topics.lookup topic = some t)
    (hlt : ∀ i ∈ picked, i < t.members.length) :
    (r.recordsAt t picked).length = picked.length := by
  unfold recordsAt
  refine List.filterMap_length_eq_length.mpr fun i hi => ?_
  obtain ⟨e, hplace, he, -⟩ := h.record_at ht (hlt i hi)
  rw [hplace, Option.bind_some, he]
  rfl

/-- A record at one of the places is a record of the topic. -/
theorem Consistent.mem_recordsAt (h : r.Consistent) (ht : r.topics.lookup topic = some t)
    (hlt : ∀ i ∈ picked, i < t.members.length) {e : Entry} (he : e ∈ r.recordsAt t picked) :
    r.byDev.lookup e.devId = some e ∧ e.topicId = topic ∧ e.devId ∈ t.members := by
  obtain ⟨i, hi, hrec⟩ := List.mem_filterMap.mp he
  obtain ⟨e', hplace, he', htopic⟩ := h.record_at ht (hlt i hi)
  rw [hplace, Option.bind_some, he'] at hrec
  cases hrec
  exact ⟨he', htopic, List.mem_of_getElem? hplace⟩

/-- Distinct places have distinct devices. -/
theorem Consistent.nodup_recordsAt (h : r.Consistent) (ht : r.topics.lookup topic = some t)
    (hnodup : picked.Nodup) (hlt : ∀ i ∈ picked, i < t.members.length) :
    ((r.recordsAt t picked).map Entry.devId).Nodup := by
  have hplaces : (r.recordsAt t picked).map Entry.devId = picked.filterMap (t.members[·]?) := by
    unfold recordsAt
    rw [List.map_filterMap]
    refine List.filterMap_congr fun i hi => ?_
    obtain ⟨e, hplace, he, -⟩ := h.record_at ht (hlt i hi)
    rw [hplace, Option.bind_some, he, Option.map_some]
  rw [hplaces]
  refine hnodup.filterMap fun i j dev hi hj => ?_
  have hi' := List.getElem?_eq_some_iff.mp hi
  exact (List.getElem?_inj hi'.1 (h.members topic t ht).1).mp (hi.trans hj.symm)

/-- The sample drawn at distinct places of the member list is what is to be
returned. -/
theorem Consistent.sample (h : r.Consistent) (ht : r.topics.lookup topic = some t)
    (hnodup : picked.Nodup) (hlt : ∀ i ∈ picked, i < t.members.length) {max : Nat}
    (hlen : picked.length = min (asked max) t.members.length) (wantMeta : Bool) (now : Instant) :
    r.Sample topic t max wantMeta now (r.sampleOf t wantMeta now picked) := by
  have hperm : ((r.recordsAt t picked).filter (r.isFresh · now) ++
      (r.recordsAt t picked).filter (!r.isFresh · now)).Perm (r.recordsAt t picked) :=
    List.filter_append_perm _ _
  have hentry : ∀ x ∈ (r.sampleOf t wantMeta now picked).entries, ∃ e,
      x = r.toEntry e wantMeta now ∧ r.byDev.lookup e.devId = some e ∧ e.topicId = topic ∧
        e.devId ∈ t.members := by
    intro x hx
    obtain ⟨e, he, rfl⟩ := List.mem_map.mp hx
    exact ⟨e, rfl, h.mem_recordsAt ht hlt (hperm.mem_iff.mp he)⟩
  refine ⟨?_, ?_, fun x hx => ?_, fun x hx => ?_, ?_, fun x hx => ?_, rfl, rfl⟩
  · show (List.map _ _).length = _
    rw [List.length_map, hperm.length_eq, h.length_recordsAt ht hlt, hlen]
  · show (List.map _ (List.map _ _)).Nodup
    rw [List.map_map]
    exact (hperm.map Entry.devId).nodup_iff.mpr (h.nodup_recordsAt ht hnodup hlt)
  · obtain ⟨e, rfl, -, -, hmem⟩ := hentry x hx
    exact hmem
  · obtain ⟨e, rfl, he, rfl, -⟩ := hentry x hx
    refine ⟨r.toEntry e true now, ?_, rfl⟩
    show (r.byDev.lookup e.devId).map _ = _
    rw [he, Option.map_some]
  · refine ⟨_, _, List.map_append, fun x hx => ?_, fun x hx => ?_⟩
    · obtain ⟨e, he, rfl⟩ := List.mem_map.mp hx
      show (!r.isFresh e now) = false
      rw [(List.mem_filter.mp he).2, Bool.not_true]
    · obtain ⟨e, he, rfl⟩ := List.mem_map.mp hx
      exact (List.mem_filter.mp he).2
  · obtain ⟨e, rfl, he, -, -⟩ := hentry x hx
    exact ⟨List.length_take_le _ _, e, he, rfl⟩

end Samples

/-- In every state a run reaches, a lookup of a topic whose draws suffice
returns, and what it returns are as many entries as were asked for and the topic
has: distinct members, as `resolve` reports them, the fresh ones first.  The
three ways of drawing differ in the indexes they draw, and in nothing else; the
draws matter in the third way only. -/
theorem lookup_samples (P : Primitives) (cfg : RegistryConfig) (secret : SymKey) (ops : List Op)
    (hsep : Separates P secret (ops.filterMap Op.registers)) (topic : TopicId) (t : TopicState)
    (ht : (run (step P) { cfg := cfg, secret := secret } ops).topics.lookup topic = some t)
    (max : Nat) (wantMeta : Bool) (now : Instant) (s : Sampler) (hfair : s.Fair t.members.length)
    (hdraws : s.Suffices t.members.length (min (asked max) t.members.length)) :
    let r := run (step P) { cfg := cfg, secret := secret } ops
    ∃ res, (r.lookup topic max wantMeta now s).1 = some res ∧
      r.Sample topic t max wantMeta now res ∧
      ∃ picked, pick s t.members.length (min (asked max) t.members.length) = some picked ∧
        picked.Nodup ∧ (∀ i ∈ picked, i < t.members.length) ∧
        res = r.sampleOf t wantMeta now picked := by
  intro r
  have hinit : View.Inv (deriveDevId P) secret (ops.filterMap Op.registers)
      (Registry.view { cfg := cfg, secret := secret }) := View.inv_empty
  have hcons : r.Consistent := by
    refine consistent_of_inv (inv_run hinit ops hsep fun op hop p hp => ?_)
    exact List.mem_filterMap.mpr ⟨op, hop, hp⟩
  obtain ⟨picked, hpick⟩ := Option.isSome_iff_exists.mp
    (pick_isSome_iff.mpr hdraws)
  obtain ⟨hnodup, hlen, hlt⟩ := pick_spec hfair (Nat.min_le_right _ _) hpick
  refine ⟨r.sampleOf t wantMeta now picked, ?_, hcons.sample ht hnodup hlt hlen wantMeta now, picked,
    hpick, hnodup, hlt, rfl⟩
  rw [lookup_eq r ht, hpick, Option.map_some]

/-- Four members of one topic, of whom a lookup wants one: its index is drawn in
the loop. -/
def sampleTopic : Registry :=
  run (step Primitives.checksum) { secret := Vector.replicate 32 0 }
    ([7, 8, 9, 10].map fun port => .register { id := Vector.replicate 16 1 } { port := port } port 0)

/-- A shuffle that turns the indexes round, and one draw. -/
def sampleSampler : Sampler := { shuffle := List.reverse, draws := [3] }

theorem lookup_samples_sample :
    ∃ t, sampleTopic.topics.lookup (Vector.replicate 16 1) = some t ∧ t.members.length = 4 ∧
      ∃ res, (sampleTopic.lookup (Vector.replicate 16 1) 1 false 5 sampleSampler).1 = some res ∧
        sampleTopic.Sample (Vector.replicate 16 1) t 1 false 5 res := by
  obtain ⟨t, ht⟩ : ∃ t, sampleTopic.topics.lookup (Vector.replicate 16 1) = some t :=
    Option.isSome_iff_exists.mp (by decide +kernel)
  have hfour : (sampleTopic.topics.lookup (Vector.replicate 16 1)).map (·.members.length) =
      some 4 := by decide +kernel
  rw [ht, Option.map_some, Option.some.injEq] at hfour
  have hfair : sampleSampler.Fair t.members.length := by
    refine ⟨List.reverse_perm _, fun i hi => ?_⟩
    rw [List.mem_singleton.mp hi, hfour]
    exact Nat.lt_succ_self 3
  obtain ⟨res, hres, hsample, -⟩ := lookup_samples Primitives.checksum {} (Vector.replicate 32 0) _
    (by unfold Separates; decide +kernel) (Vector.replicate 16 1) t ht 1 false 5 sampleSampler hfair
    (by rw [hfour]; decide)
  exact ⟨t, ht, hfour, res, hres, hsample⟩

end Registry

end UConnect.Server
