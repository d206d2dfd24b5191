/-
  Server/RegistryView.lean --- what the registry's containers say.

  The registry keeps the same facts several times over: each record names its
  topic and its owner, each topic lists its members and where they are, and each
  connection lists what it owns.  `View` is what those containers say, with the
  counters and timestamps left out.  Every operation acts on the view in one of
  a few ways (not at all, a record written, a takeover, a new member, a
  removal); this module says which.
-/
import UConnect.Server.Allocation

set_option autoImplicit false

namespace UConnect.Server

open UConnect UConnect.Foundation UConnect.Crypto

/-! ## Lookups after map updates

The finite maps as functions, so that two views are compared by what they say. -/

section Lookups

variable {κ ν : Type} [DecidableEq κ]

theorem lookup_insert_ite (m : AList fun _ : κ => ν) (k k' : κ) (v : ν) :
    (m.insert k v).lookup k' = if k' = k then some v else m.lookup k' := by
  split
  · rename_i h; subst h; exact AList.lookup_insert m
  · rename_i h; exact AList.lookup_insert_ne h

theorem lookup_erase_ite (m : AList fun _ : κ => ν) (k k' : κ) :
    (m.erase k).lookup k' = if k' = k then none else m.lookup k' := by
  split
  · rename_i h; subst h; exact AList.lookup_erase _ m
  · rename_i h; exact AList.lookup_erase_ne h

theorem lookup_modifyAt (m : AList fun _ : κ => ν) (k k' : κ) (f : ν → ν) :
    (modifyAt m k f).lookup k' = if k' = k then (m.lookup k).map f else m.lookup k' := by
  unfold modifyAt
  cases h : m.lookup k with
  | none =>
      dsimp only
      split
      · rename_i hk; subst hk; exact h
      · rfl
  | some v =>
      simp only [lookup_insert_ite, Option.map_some]

/-- A change that a projection does not see leaves the projection of every
lookup alone. -/
theorem map_lookup_modifyAt {μ : Type} (m : AList fun _ : κ => ν) (k k' : κ) {f : ν → ν}
    {g : ν → μ} (hg : ∀ v, g (f v) = g v) :
    ((modifyAt m k f).lookup k').map g = (m.lookup k').map g := by
  rw [lookup_modifyAt]
  split
  · rename_i hk
    subst hk
    cases m.lookup k' <;> simp [hg]
  · rfl

end Lookups

/-! ## What the indexes say

A record and a topic without counters and times. -/

/-- A record without its timestamp and its payload. -/
structure Stub where
  devId : DevId
  topicId : TopicId
  addr : Endpoint
  owner : ConnKey

/-- The part of a record the indexes depend on. -/
def Entry.stub (e : Entry) : Stub := ⟨e.devId, e.topicId, e.boundAddr, e.owner⟩

/-- A topic's members and their index. -/
def TopicState.roll (t : TopicState) : List DevId × AList fun _ : DevId => Nat :=
  (t.members, t.pos)

/-- What the registry's containers say about records, and the secret their ids
are made with. -/
structure View where
  secret : SymKey
  /-- The record of a device id. -/
  record : DevId → Option Stub
  /-- The members of a topic, with their index. -/
  topic : TopicId → Option (List DevId × AList fun _ : DevId => Nat)
  /-- What a connection owns. -/
  owned : ConnKey → List DevId

/-- The view of a registry. -/
def Registry.view (r : Registry) : View where
  secret := r.secret
  record dev := (r.byDev.lookup dev).map Entry.stub
  topic t := (r.topics.lookup t).map TopicState.roll
  owned o := r.owned o

/-! ## Operations the view does not see

Freshness, statistics and relays are outside the view. -/

namespace Registry

theorem view_eq {r r' : Registry}
    (hrec : ∀ dev, (r'.byDev.lookup dev).map Entry.stub = (r.byDev.lookup dev).map Entry.stub)
    (htop : ∀ t, (r'.topics.lookup t).map TopicState.roll =
      (r.topics.lookup t).map TopicState.roll)
    (hown : r'.byOwner = r.byOwner) (hsecret : r'.secret = r.secret) :
    r'.view = r.view := by
  unfold view owned
  rw [hown, hsecret]
  congr 1
  · exact funext hrec
  · exact funext htop

/-- The counter of fresh members is not part of a topic's roll. -/
@[simp] theorem roll_fresh (t : TopicState) (n : Nat) :
    TopicState.roll { t with fresh := n } = t.roll := by
  simp only [TopicState.roll]

@[simp] theorem view_forgetFresh (r : Registry) (e : Entry) :
    (r.forgetFresh e).view = r.view := by
  unfold forgetFresh
  split
  · refine view_eq (fun _ => by dsimp only) (fun t => ?_) (by dsimp only) (by dsimp only)
    exact map_lookup_modifyAt r.topics e.topicId t fun t => roll_fresh t _
  · rfl

@[simp] theorem byDev_forgetFresh (r : Registry) (e : Entry) :
    (r.forgetFresh e).byDev = r.byDev := by
  unfold forgetFresh
  split
  · dsimp only
  · rfl

theorem view_markFresh (r : Registry) (dev : DevId) (now : Instant) :
    (r.markFresh dev now).view = r.view := by
  unfold markFresh
  cases h : r.byDev.lookup dev with
  | none => rfl
  | some e =>
      rw [← view_forgetFresh r e]
      refine view_eq (fun d => ?_) (fun t => ?_) (by dsimp only) (by dsimp only)
      · simp only [byDev_forgetFresh, lookup_insert_ite]
        split
        · rename_i hd; subst hd; rw [h]; rfl
        · rfl
      · exact map_lookup_modifyAt _ e.topicId t fun t => roll_fresh t _

@[simp] theorem view_expireOne (r : Registry) (e : Σ _ : Instant × DevId, TopicId) :
    (r.expireOne e).view = r.view := by
  unfold expireOne
  refine view_eq (fun _ => by dsimp only) (fun t => ?_) (by dsimp only) (by dsimp only)
  exact map_lookup_modifyAt r.topics e.2 t fun t => roll_fresh t _

@[simp] theorem view_expireFresh (r : Registry) (now : Instant) :
    (r.expireFresh now).view = r.view := by
  unfold expireFresh
  generalize List.takeWhile _ _ = l
  induction l generalizing r with
  | nil => rfl
  | cons e l ih => rw [List.foldl_cons, ih, view_expireOne]

/-- Releasing bindings touches no record. -/
@[simp] theorem view_releaseRelay (r : Registry) (it : Σ _ : RelayId, Relay) :
    (r.releaseRelay it).view = r.view := by
  simp only [releaseRelay, view, owned]

@[simp] theorem view_releaseWhere (r : Registry) (dead : Relay → Bool) :
    (r.releaseWhere dead).view = r.view := by
  unfold releaseWhere
  generalize List.filter _ _ = l
  induction l generalizing r with
  | nil => rfl
  | cons it l ih => rw [List.foldl_cons, ih, view_releaseRelay]

theorem view_refresh (r : Registry) (dev : DevId) (owner : ConnKey) (now : Instant) :
    (r.refresh dev owner now).2.view = r.view := by
  unfold refresh
  split
  · rfl
  · split
    · rfl
    · exact view_markFresh r dev now

theorem view_update (r : Registry) (msg : Update) (owner : ConnKey) (now : Instant) :
    (r.update msg owner now).2.view = r.view := by
  unfold update
  split
  · rfl
  · rename_i e he
    split
    · rfl
    · rw [view_markFresh]
      refine view_eq (fun d => ?_) (fun _ => by dsimp only) (by dsimp only) (by dsimp only)
      simp only [lookup_insert_ite]
      split
      · rename_i hd; subst hd; rw [he]; rfl
      · rfl

theorem view_lookup (r : Registry) (topic : TopicId) (max : Nat) (wantMeta : Bool)
    (now : Instant) (s : Sampler) : (r.lookup topic max wantMeta now s).2.view = r.view := by
  unfold lookup
  dsimp only
  split <;> simp only [view, owned]

theorem view_connectTarget (r : Registry) (src dst : DevId) (owner : ConnKey) :
    (r.connectTarget src dst owner).2.view = r.view := by
  unfold connectTarget
  repeat' split
  all_goals simp only [view, owned]

theorem view_relayAlloc {r r' : Registry} {src peer : DevId} {kind : RelayKind}
    {owner : ConnKey} {addr : Endpoint} {now : Instant} {draws : RelayDraws} {g : RelayGrant}
    (h : r.relayAlloc src peer kind owner addr now draws = some (g, r')) :
    r'.view = r.view := by
  cases allocation h with
  | barred => rfl
  | full => rfl
  | found => rfl
  | made => rfl

theorem view_relayCharge (r : Registry) (id : RelayId) (bytes : Nat) (now : Instant) :
    (r.relayCharge id bytes now).2.view = r.view := by
  unfold relayCharge
  repeat' split
  all_goals simp only [view, owned]

theorem view_udpBind (r : Registry) (id : RelayId) (token : RelayToken) (src : Endpoint)
    (now : Instant) : (r.udpBind id token src now).2.view = r.view := by
  unfold udpBind
  repeat' split
  all_goals simp only [view, owned]

theorem view_udpForward (r : Registry) (id : RelayId) (src : Endpoint) (bytes : Nat)
    (now : Instant) : (r.udpForward id src bytes now).2.view = r.view := by
  unfold udpForward
  split
  · rfl
  · rename_i b _
    split
    · rfl
    · dsimp only
      generalize (if (b.udp 0).any (·.same src) then some (0 : Fin 2)
        else if (b.udp 1).any (·.same src) then some 1 else none) = side
      cases side with
      | none => rfl
      | some side =>
          dsimp only
          split
          · rfl
          · exact view_relayCharge r id bytes now

theorem view_relayClose (r : Registry) (id : RelayId) :
    (r.relayClose id).view = r.view := by
  unfold relayClose
  split
  · rfl
  · exact view_releaseRelay r _

theorem view_withStats (r : Registry) (st : RegistryStats) :
    { r with stats := st }.view = r.view := by
  simp only [view, owned]

end Registry

/-! ## The ways the view changes

Five changes of a view, and which part of which operation makes each of them. -/

namespace View

/-- The record under `dev` written. -/
def put (v : View) (dev : DevId) (s : Stub) : View :=
  { v with record := Function.update v.record dev (some s) }

/-- `dev` moves from one connection's list to another's. -/
def pass (v : View) (dev : DevId) (old new : ConnKey) : View :=
  let left := Function.update v.owned old ((v.owned old).filter (· ≠ dev))
  { v with owned := Function.update left new (left new ++ [dev]) }

/-- A new device joins a topic and a connection's list. -/
def join (v : View) (dev : DevId) (t : TopicId) (owner : ConnKey) : View :=
  let m := (v.topic t).getD ([], ∅)
  { v with
    topic := Function.update v.topic t (some (m.1 ++ [dev], m.2.insert dev m.1.length))
    owned := Function.update v.owned owner (v.owned owner ++ [dev]) }

/-- A topic's roll without `dev`; `none` once nobody is left. -/
def leave (m : List DevId × AList fun _ : DevId => Nat) (dev : DevId) :
    Option (List DevId × AList fun _ : DevId => Nat) :=
  let m := match m.2.lookup dev with
    | none => m
    | some idx => swapPop m.1 m.2 dev idx
  if m.1.isEmpty then none else some m

/-- The record of `dev` is gone, also from its topic; its owner's list is as
before. -/
def remove (v : View) (dev : DevId) : View :=
  match v.record dev with
  | none => v
  | some s =>
      { v with
        record := Function.update v.record dev none
        topic := Function.update v.topic s.topicId ((v.topic s.topicId).bind (leave · dev)) }

theorem put_put (v : View) (dev : DevId) (s s' : Stub) :
    (v.put dev s).put dev s' = v.put dev s' := by
  simp only [put, Function.update_idem]

end View

namespace Registry

theorem view_takeOver (r : Registry) (dev : DevId) (e : Entry) (owner : ConnKey) :
    (r.takeOver dev e owner).view =
      (r.view.pass dev e.owner owner).put dev { e.stub with owner := owner } := by
  unfold takeOver
  simp only [view, owned, View.put, View.pass, View.mk.injEq]
  refine ⟨trivial, funext fun d => ?_, trivial, funext fun o => ?_⟩
  · rw [lookup_insert_ite, Function.update_apply]
    split <;> rfl
  · simp only [lookup_insert_ite, Function.update_apply]
    split
    · simp only [Option.getD_some]
      split <;> rfl
    · split <;> rfl

theorem view_writeRecord (r : Registry) (msg : Register) (dev : DevId) (src : Endpoint)
    (owner : ConnKey) (now : Instant) :
    (r.writeRecord msg dev src owner now).view =
      r.view.put dev ⟨dev, msg.id, src, owner⟩ := by
  have hput : ∀ e : Entry, { r with byDev := r.byDev.insert dev e }.view =
      r.view.put dev e.stub := by
    intro e
    simp only [view, owned, View.put, View.mk.injEq, true_and, and_true]
    funext d
    rw [lookup_insert_ite, Function.update_apply]
    split <;> rfl
  unfold writeRecord
  dsimp only
  split
  · refine (view_eq (fun _ => by dsimp only) (fun t => ?_) (by dsimp only) (by dsimp only)).trans
      ((view_markFresh _ dev now).trans (hput _))
    exact map_lookup_modifyAt _ msg.id t fun _ => by simp only [TopicState.roll]
  · exact (view_markFresh _ dev now).trans (hput _)

theorem roll_lookup_getD (r : Registry) (t : TopicId) :
    ((r.topics.lookup t).getD {}).roll = (r.view.topic t).getD ([], ∅) := by
  simp only [view]
  cases r.topics.lookup t <;> rfl

theorem view_addRecord (r : Registry) (msg : Register) (dev : DevId) (src : Endpoint)
    (owner : ConnKey) :
    (r.addRecord msg dev src owner).view = r.view.join dev msg.id owner := by
  have hroll := roll_lookup_getD r msg.id
  unfold addRecord openTopic View.join
  rw [← hroll]
  dsimp only
  split
  all_goals
    simp only [view, owned, View.mk.injEq, true_and]
    refine ⟨funext fun t => ?_, funext fun o => ?_⟩
    · rw [lookup_insert_ite, Function.update_apply]
      split <;> rfl
    · rw [lookup_insert_ite, Function.update_apply]
      split <;> rfl

theorem roll_removeMember (t : TopicState) (dev : DevId) :
    (t.removeMember dev).roll = match t.roll.2.lookup dev with
      | none => t.roll
      | some idx => swapPop t.roll.1 t.roll.2 dev idx := by
  unfold TopicState.removeMember TopicState.roll
  dsimp only
  cases t.pos.lookup dev <;> rfl

/-- The topic half of a removal, on the view. -/
theorem view_leaveTopic (r : Registry) (dev : DevId) (e : Entry) :
    (r.leaveTopic dev e).view = { r.view with
      topic := Function.update r.view.topic e.topicId
        ((r.view.topic e.topicId).bind (View.leave · dev)) } := by
  unfold leaveTopic
  cases h : r.topics.lookup e.topicId with
  | none =>
      simp only [view, h, Option.map_none, Option.bind_none]
      congr 1
      funext t
      rw [Function.update_apply]
      split
      · rename_i ht; rw [ht, h]; rfl
      · rfl
  | some t =>
      have hbind : (r.view.topic e.topicId).bind (View.leave · dev) =
          if (t.removeMember dev).members.isEmpty then none
          else some (t.removeMember dev).roll := by
        simp only [view, h, Option.map_some, Option.bind_some, View.leave, ← roll_removeMember]
        rfl
      rw [hbind]
      dsimp only
      split
      all_goals
        simp only [view, owned, View.mk.injEq, true_and, and_true]
        funext t'
      · rw [lookup_erase_ite, Function.update_apply]
        split <;> rfl
      · rw [lookup_insert_ite, Function.update_apply]
        split <;> rfl

@[simp] theorem byDev_leaveTopic (r : Registry) (dev : DevId) (e : Entry) :
    (r.leaveTopic dev e).byDev = r.byDev := by
  unfold leaveTopic
  split
  · rfl
  · dsimp only
    split <;> dsimp only

theorem view_eraseEntry (r : Registry) (dev : DevId) :
    (r.eraseEntry dev).view = r.view.remove dev := by
  unfold eraseEntry View.remove
  cases h : r.byDev.lookup dev with
  | none => simp only [view, h, Option.map_none]
  | some e =>
      have hrec : r.view.record dev = some e.stub := by simp only [view, h, Option.map_some]
      have hleave := view_leaveTopic (r.forgetFresh e) dev e
      rw [view_forgetFresh] at hleave
      have htopic : e.stub.topicId = e.topicId := rfl
      simp only [hrec, htopic]
      simp only [view, owned, View.mk.injEq] at hleave ⊢
      refine ⟨hleave.1, funext fun d => ?_, hleave.2.2⟩
      rw [byDev_leaveTopic, byDev_forgetFresh, lookup_erase_ite, Function.update_apply]
      split <;> rfl

/-! ## What queries return

The record a query finds is the one the view has. -/

/-- An entry of a sample is made of a record. -/
theorem lookup_entry {r : Registry} {topic : TopicId} {max : Nat} {wantMeta : Bool} {now : Instant}
    {s : Sampler} {res : LookupResult} (hres : (r.lookup topic max wantMeta now s).1 = some res)
    {x : PeerEntry} (hx : x ∈ res.entries) :
    ∃ dev e, r.byDev.lookup dev = some e ∧ x = r.toEntry e wantMeta now := by
  unfold lookup at hres
  dsimp only at hres
  split at hres
  · cases hres
    cases hx
  · obtain ⟨picked, -, rfl⟩ := Option.map_eq_some_iff.mp hres
    obtain ⟨e, he, rfl⟩ := List.mem_map.mp hx
    rw [List.mem_append, List.mem_filter, List.mem_filter] at he
    obtain ⟨i, -, hi⟩ := List.mem_filterMap.mp (he.elim And.left And.left)
    obtain ⟨dev, -, hdev⟩ := Option.bind_eq_some_iff.mp hi
    exact ⟨dev, e, hdev, rfl⟩

/-- A target is the owner of the other record, asked for by the owner of the
first. -/
theorem connectTarget_some {r : Registry} {src dst : DevId} {owner target : ConnKey}
    (h : (r.connectTarget src dst owner).1 = some target) :
    ∃ f t, r.byDev.lookup src = some f ∧ r.byDev.lookup dst = some t ∧ f.owner = owner ∧
      f.topicId = t.topicId ∧ target = t.owner := by
  unfold connectTarget at h
  split at h
  · rename_i f t hf ht
    split at h
    · cases h
    rename_i howner
    split at h
    · cases h
    rename_i htopic
    exact ⟨f, t, hf, ht, not_not.mp howner, not_not.mp htopic, (Option.some.inj h).symm⟩
  · cases h

/-! ## Registrations

The one operation that makes several of the changes. -/

/-- What a registration does to the view, and which answer goes with it. -/
theorem view_registerEntry (P : Primitives) (r : Registry) (msg : Register) (src : Endpoint)
    (owner : ConnKey) (now : Instant) :
    let dev := deriveDevId P r.secret msg.id src
    let new : Stub := ⟨dev, msg.id, src, owner⟩
    let res := r.registerEntry P msg src owner now
    match r.byDev.lookup dev with
    | some e =>
        res.1.code = .none ∧ res.2.view =
          (if e.owner ≠ owner then r.view.pass dev e.owner owner else r.view).put dev new
    | none =>
        (res.1.code = .quotaExceeded ∧ res.2.view = r.view) ∨
          (res.1.code = .none ∧
            res.2.view = (r.view.join dev msg.id owner).put dev new) := by
  intro dev new res
  cases h : r.byDev.lookup dev with
  | some e =>
      show res.1.code = _ ∧ res.2.view = _
      simp only [res, registerEntry, dev, new] at h ⊢
      simp only [h, Option.isNone_some, Bool.false_and, Bool.false_eq_true, if_false]
      refine ⟨trivial, ?_⟩
      rw [view_withStats, view_writeRecord]
      split
      · rw [view_takeOver, View.put_put]
      · rfl
  | none =>
      show (res.1.code = _ ∧ res.2.view = _) ∨ (res.1.code = _ ∧ res.2.view = _)
      simp only [res, registerEntry, dev, new] at h ⊢
      simp only [h, Option.isNone_none, Bool.true_and, if_true]
      split
      · exact .inl ⟨rfl, view_withStats r _⟩
      · refine .inr ⟨rfl, ?_⟩
        rw [view_withStats, view_writeRecord, view_addRecord]

end Registry

end UConnect.Server
