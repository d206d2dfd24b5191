/-
  Server/Allocation.lean --- what a relay allocation can come to.

  Source: server/registry.cpp, `relay_alloc`.

  An allocation is barred, refused for a quota, answered with the binding the
  pair has, or answered with a new one.  Everything that is said of allocations
  elsewhere is read off these four.

  The order of the tests is the source's: who may ask at all, then the binding
  there is, then the room for another.  A pair that has its binding is therefore
  answered also where another could not be made.
-/
import UConnect.Server.Registry

set_option autoImplicit false

namespace UConnect.Server

open UConnect UConnect.Foundation

namespace Registry

/-- The byte budget of a binding in KiB, as a grant carries it. -/
def maxKib (r : Registry) : Nat := r.cfg.relayMaxBytes / 1024 % 2 ^ 32

/-- One more refusal, and nothing else. -/
def rejected (r : Registry) : Registry :=
  { r with stats := { r.stats with rejQuota := r.stats.rejQuota + 1 } }

/-- What an allocation comes to: the grant and the registry after it. -/
inductive Allocation (r : Registry) (src peer : DevId) (kind : RelayKind) (owner : ConnKey)
    (addr : Endpoint) (now : Instant) (draws : RelayDraws) : RelayGrant → Registry → Prop where
  /-- Relays are off, a record is missing or another's, or the topics differ. -/
  | barred {code : ErrorCode} (hcode : code ≠ .none) (hquota : code ≠ .quotaExceeded) :
      Allocation r src peer kind owner addr now draws { code := code, maxKib := r.maxKib } r
  /-- The pair's binding is spent, or there is no room for another. -/
  | full {f p : Entry} (hf : r.byDev.lookup src = some f) (hp : r.byDev.lookup peer = some p)
      (howner : f.owner = owner) (htopic : f.topicId = p.topicId) :
      Allocation r src peer kind owner addr now draws
        { code := .quotaExceeded, maxKib := r.maxKib } r.rejected
  /-- The pair has a binding. -/
  | found {f p : Entry} {id : RelayId} {b : Relay} {side : Fin 2}
      (hf : r.byDev.lookup src = some f) (hp : r.byDev.lookup peer = some p)
      (howner : f.owner = owner) (htopic : f.topicId = p.topicId)
      (hfind : r.findBinding src peer kind = some (⟨id, b⟩, side)) (hgood : b.exhausted = false) :
      Allocation r src peer kind owner addr now draws
        { id := id, token := b.token side, peerToken := b.token (1 - side),
          peerOwner := b.owner (1 - side), topic := b.topic, maxKib := r.maxKib }
        { r with relays := r.relays.insert id { b with lastSeen := now } }
  /-- The pair gets a binding. -/
  | made {f p : Entry} {id : RelayId} (hf : r.byDev.lookup src = some f)
      (hp : r.byDev.lookup peer = some p) (howner : f.owner = owner)
      (htopic : f.topicId = p.topicId) (hnone : r.findBinding src peer kind = none)
      (hmax : r.relays.entries.length < r.cfg.maxRelays)
      (hip : ∀ n ∈ r.relaysPerIp.lookup (ipKey addr), n < r.cfg.maxRelaysPerIp)
      (hid : id ∈ draws.ids) (hpos : id ≠ 0) (hnew : id ∉ r.relays) :
      Allocation r src peer kind owner addr now draws
        { id := id, token := draws.token 0, peerToken := draws.token 1, peerOwner := p.owner,
          topic := f.topicId, maxKib := r.maxKib }
        { r with
          relays := r.relays.insert id
            { id := id, kind := kind, topic := f.topicId, dev := ![src, peer],
              owner := ![owner, p.owner], token := draws.token, udp := fun _ => none,
              countedIp := ipKey addr, lastSeen := now }
          relaysPerIp := increment r.relaysPerIp (ipKey addr)
          stats := { r.stats with relaysAllocated := r.stats.relaysAllocated + 1 } }

theorem allocation {r r' : Registry} {src peer : DevId} {kind : RelayKind} {owner : ConnKey}
    {addr : Endpoint} {now : Instant} {draws : RelayDraws} {g : RelayGrant}
    (h : r.relayAlloc src peer kind owner addr now draws = some (g, r')) :
    r.Allocation src peer kind owner addr now draws g r' := by
  unfold relayAlloc at h
  dsimp only at h
  split at h
  · obtain ⟨rfl, rfl⟩ := Prod.mk.inj (Option.some.inj h)
    exact .barred (by decide) (by decide)
  split at h
  swap
  · obtain ⟨rfl, rfl⟩ := Prod.mk.inj (Option.some.inj h)
    exact .barred (by decide) (by decide)
  rename_i f p hf hp
  split at h
  · obtain ⟨rfl, rfl⟩ := Prod.mk.inj (Option.some.inj h)
    exact .barred (by decide) (by decide)
  rename_i hown
  split at h
  · obtain ⟨rfl, rfl⟩ := Prod.mk.inj (Option.some.inj h)
    exact .barred (by decide) (by decide)
  rename_i htopic
  split at h
  · rename_i id b side hfind
    split at h
    · obtain ⟨rfl, rfl⟩ := Prod.mk.inj (Option.some.inj h)
      exact .full hf hp (not_not.mp hown) (not_not.mp htopic)
    · rename_i hgood
      obtain ⟨rfl, rfl⟩ := Prod.mk.inj (Option.some.inj h)
      exact .found hf hp (not_not.mp hown) (not_not.mp htopic) hfind (Bool.not_eq_true _ ▸ hgood)
  · rename_i hfind
    split at h
    · obtain ⟨rfl, rfl⟩ := Prod.mk.inj (Option.some.inj h)
      exact .full hf hp (not_not.mp hown) (not_not.mp htopic)
    · rename_i hquota
      obtain ⟨id, hid, heq⟩ := Option.map_eq_some_iff.mp h
      obtain ⟨rfl, rfl⟩ := Prod.mk.inj heq
      have hfree := List.find?_some hid
      simp only [decide_eq_true_eq] at hfree
      simp only [Bool.or_eq_true, decide_eq_true_eq, not_or, Nat.not_le] at hquota
      refine .made hf hp (not_not.mp hown) (not_not.mp htopic) hfind hquota.1 ?_
        (List.mem_of_find?_eq_some hid) hfree.1 hfree.2
      intro n hn
      have hany := hquota.2
      rw [Option.mem_def.mp hn, Option.any_some, decide_eq_true_eq] at hany
      exact Nat.not_le.mp hany

end Registry

end UConnect.Server
