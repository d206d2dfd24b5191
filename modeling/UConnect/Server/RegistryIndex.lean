/-
  Server/RegistryIndex.lean --- the registry's indexes agree.

  `View.Inv` says that records, topics and owner lists tell the same story.  It
  is proved once for each way an operation changes the view and lifted to whole
  runs; `dropOwner` is a fold of removals that mends the owner lists at its end.

  Device ids are MACs.  The invariant needs them to tell apart the pairs that
  the run registered, and nothing more.
-/
import UConnect.Foundation.Run
import UConnect.Server.RegistryView

set_option autoImplicit false

namespace UConnect.Server

open UConnect UConnect.Foundation UConnect.Crypto

/-! ## The invariant

A topic's members are the records under it, each at the place the index gives;
an owner's list is the records it owns, each once. -/

/-- Records and topics agree: the topics are those of the records, and each
lists its own records once, at their indexed place.  `derive` is how device ids
are made and `known` the pairs they were made from. -/
structure View.TopicInv (derive : SymKey → TopicId → Endpoint → DevId)
    (known : List (TopicId × Endpoint)) (v : View) : Prop where
  /-- A record is filed under its own id, derived from a registered pair. -/
  derived : ∀ dev s, v.record dev = some s →
    s.devId = dev ∧ dev = derive v.secret s.topicId s.addr ∧ (s.topicId, s.addr) ∈ known
  /-- Every record's topic exists. -/
  present : ∀ dev s, v.record dev = some s → ∃ m, v.topic s.topicId = some m
  /-- Every topic has a member. -/
  nonempty : ∀ t m, v.topic t = some m → m.1 ≠ []
  /-- A topic's index is its member list. -/
  indexed : ∀ t m, v.topic t = some m → Indexed m.1 m.2
  /-- A topic's members are its records. -/
  members : ∀ t m, v.topic t = some m → ∀ dev,
    dev ∈ m.1 ↔ (v.record dev).map (·.topicId) = some t

/-- Owner `o`'s list is the records `o` owns, once each. -/
def View.OwnerInv (v : View) (o : ConnKey) : Prop :=
  (v.owned o).Nodup ∧ ∀ dev, dev ∈ v.owned o ↔ (v.record dev).map (·.owner) = some o

/-- All indexes agree, and ids are made with `key`. -/
structure View.Inv (derive : SymKey → TopicId → Endpoint → DevId) (key : SymKey)
    (known : List (TopicId × Endpoint)) (v : View) : Prop where
  secret : v.secret = key
  topics : v.TopicInv derive known
  owners : ∀ o, v.OwnerInv o

namespace View

variable {derive : SymKey → TopicId → Endpoint → DevId} {known : List (TopicId × Endpoint)}
  {key : SymKey} {v v' : View} {dev : DevId} {s s' : Stub} {o : ConnKey}

theorem inv_empty :
    View.Inv derive key known ⟨key, fun _ => none, fun _ => none, fun _ => []⟩ where
  secret := rfl
  topics := ⟨by simp, by simp, by simp, by simp, by simp⟩
  owners o := ⟨List.nodup_nil, by simp⟩

/-! ## Records and topics

How each change of the view keeps the topics' part. -/

/-- The topic part reads records and topics only. -/
theorem TopicInv.congr (h : v.TopicInv derive known) (hsecret : v'.secret = v.secret)
    (hrec : v'.record = v.record) (htop : v'.topic = v.topic) :
    v'.TopicInv derive known where
  derived := by rw [hrec, hsecret]; exact h.derived
  present := by rw [hrec, htop]; exact h.present
  nonempty := by rw [htop]; exact h.nonempty
  indexed := by rw [htop]; exact h.indexed
  members := by rw [hrec, htop]; exact h.members

/-- A record may be rewritten as long as it stays where it is. -/
theorem TopicInv.put (h : v.TopicInv derive known) (hs : v.record dev = some s)
    (hdev : s'.devId = s.devId) (htopic : s'.topicId = s.topicId) (haddr : s'.addr = s.addr) :
    (v.put dev s').TopicInv derive known where
  derived d x hx := by
    simp only [View.put, Function.update_apply] at hx
    split at hx
    · rename_i hd
      subst hd
      obtain rfl := Option.some.inj hx
      rw [hdev, htopic, haddr]
      exact h.derived d s hs
    · exact h.derived d x hx
  present d x hx := by
    simp only [View.put, Function.update_apply] at hx ⊢
    split at hx
    · obtain rfl := Option.some.inj hx
      rw [htopic]
      exact h.present dev s hs
    · exact h.present d x hx
  nonempty := h.nonempty
  indexed := h.indexed
  members t m hm d := by
    simp only [View.put, Function.update_apply] at hm ⊢
    rw [h.members t m hm d]
    split
    · rename_i hd
      subst hd
      rw [hs, Option.map_some, Option.map_some, htopic]
    · rfl

/-- A new record joins its topic. -/
theorem TopicInv.join (h : v.TopicInv derive known) (hnone : v.record s.devId = none)
    (hdev : s.devId = derive v.secret s.topicId s.addr) (hknown : (s.topicId, s.addr) ∈ known) :
    ((v.join s.devId s.topicId o).put s.devId s).TopicInv derive known := by
  -- the roll the topic had, empty for a new one
  obtain ⟨m, hm⟩ : ∃ m, (v.topic s.topicId).getD ([], ∅) = m := ⟨_, rfl⟩
  have hidx : Indexed m.1 m.2 := by
    subst hm
    cases ht : v.topic s.topicId with
    | none => exact indexed_nil
    | some m => exact h.indexed _ m ht
  have hmem : ∀ d, d ∈ m.1 ↔ (v.record d).map (·.topicId) = some s.topicId := by
    intro d
    subst hm
    cases ht : v.topic s.topicId with
    | some m => exact h.members _ m ht d
    | none =>
        constructor
        · intro hd; cases hd
        · intro hd
          obtain ⟨x, hx, hxt⟩ := Option.map_eq_some_iff.mp hd
          obtain ⟨m', hm'⟩ := h.present d x hx
          rw [hxt, ht] at hm'
          cases hm'
  have hfresh : s.devId ∉ m.1 := by
    rw [hmem, hnone]
    simp
  have hself : ∀ t n, Function.update v.topic s.topicId
      (some (m.1 ++ [s.devId], m.2.insert s.devId m.1.length)) t = some n →
      (t = s.topicId ∧ n = (m.1 ++ [s.devId], m.2.insert s.devId m.1.length)) ∨
        (t ≠ s.topicId ∧ v.topic t = some n) := by
    intro t n hn
    rw [Function.update_apply] at hn
    split at hn
    · exact .inl ⟨‹_›, (Option.some.inj hn).symm⟩
    · exact .inr ⟨‹_›, hn⟩
  constructor
  case derived =>
    intro d x hx
    simp only [View.put, View.join, Function.update_apply] at hx
    split at hx
    · rename_i hd
      obtain rfl := Option.some.inj hx
      exact ⟨hd.symm, hd.trans hdev, hknown⟩
    · exact h.derived d x hx
  case present =>
    intro d x hx
    simp only [View.put, View.join, Function.update_apply] at hx ⊢
    split at hx
    · obtain rfl := Option.some.inj hx
      exact ⟨_, if_pos rfl⟩
    · split
      · exact ⟨_, rfl⟩
      · exact h.present d x hx
  case nonempty =>
    intro t n hn
    simp only [View.put, View.join, hm] at hn
    obtain ⟨-, rfl⟩ | ⟨-, hn⟩ := hself t n hn
    · simp
    · exact h.nonempty t n hn
  case indexed =>
    intro t n hn
    simp only [View.put, View.join, hm] at hn
    obtain ⟨-, rfl⟩ | ⟨-, hn⟩ := hself t n hn
    · exact hidx.push hfresh
    · exact h.indexed t n hn
  case members =>
    intro t n hn d
    simp only [View.put, View.join, hm] at hn
    simp only [View.put, View.join, Function.update_apply]
    obtain ⟨rfl, rfl⟩ | ⟨ht, hn⟩ := hself t n hn
    · simp only [List.mem_append, List.mem_singleton, hmem]
      split
      · rename_i hd; simp [hd]
      · rename_i hd; simp [hd]
    · rw [h.members t n hn d]
      split
      · rename_i hd
        rw [hd, hnone]
        simp [Ne.symm ht]
      · rfl

/-- What is left of a topic when a member leaves. -/
theorem leave_spec {m : List DevId × AList fun _ : DevId => Nat} (h : Indexed m.1 m.2)
    (hdev : dev ∈ m.1) :
    (leave m dev = none ∧ ∀ d ∈ m.1, d = dev) ∨
      ∃ m', leave m dev = some m' ∧ m'.1 ≠ [] ∧ Indexed m'.1 m'.2 ∧
        ∀ d, d ∈ m'.1 ↔ d ∈ m.1 ∧ d ≠ dev := by
  obtain ⟨idx, hidx⟩ : ∃ i, m.2.lookup dev = some i := by
    rw [h.mem_iff, ← AList.lookup_isSome, Option.isSome_iff_exists] at hdev
    exact hdev
  obtain ⟨hind, hmem⟩ := h.swapPop hidx
  unfold leave
  simp only [hidx]
  split
  · rename_i hempty
    rw [List.isEmpty_iff] at hempty
    refine .inl ⟨rfl, fun d hd => ?_⟩
    by_contra hne
    have := (hmem d).mpr ⟨hd, hne⟩
    rw [hempty] at this
    cases this
  · rename_i hne
    exact .inr ⟨_, rfl, fun h0 => hne (by rw [h0]; rfl), hind, hmem⟩

/-- A removal takes the record out of its topic and nothing else. -/
theorem TopicInv.remove (h : v.TopicInv derive known) (dev : DevId) :
    (v.remove dev).TopicInv derive known := by
  unfold View.remove
  cases hs : v.record dev with
  | none => exact h
  | some s =>
      obtain ⟨m, hm⟩ := h.present dev s hs
      have hdev : dev ∈ m.1 := by rw [h.members _ m hm, hs]; rfl
      have hbind : (v.topic s.topicId).bind (leave · dev) = leave m dev := by
        rw [hm, Option.bind_some]
      have hspec := leave_spec (h.indexed _ m hm) hdev
      have hrec : ∀ d x, Function.update v.record dev none d = some x →
          d ≠ dev ∧ v.record d = some x := by
        intro d x hx
        rw [Function.update_apply] at hx
        split at hx
        · cases hx
        · exact ⟨‹_›, hx⟩
      -- a roll of the new view is the shrunk one or one of the old view's
      have htop : ∀ t n, Function.update v.topic s.topicId (leave m dev) t = some n →
          (t = s.topicId ∧ leave m dev = some n) ∨ (t ≠ s.topicId ∧ v.topic t = some n) := by
        intro t n hn
        rw [Function.update_apply] at hn
        split at hn
        · exact .inl ⟨‹_›, hn⟩
        · exact .inr ⟨‹_›, hn⟩
      have hleft : ∀ n, leave m dev = some n → n.1 ≠ [] ∧ Indexed n.1 n.2 ∧
          ∀ d, d ∈ n.1 ↔ d ∈ m.1 ∧ d ≠ dev := by
        intro n hn
        obtain ⟨h0, -⟩ | ⟨m', hm', hrest⟩ := hspec
        · rw [h0] at hn; cases hn
        · rw [hm'] at hn
          obtain rfl := Option.some.inj hn
          exact hrest
      dsimp only
      rw [hbind]
      constructor
      case derived =>
        intro d x hx
        exact h.derived d x (hrec d x hx).2
      case present =>
        intro d x hx
        obtain ⟨hne, hx⟩ := hrec d x hx
        show ∃ n, Function.update v.topic s.topicId (leave m dev) x.topicId = some n
        rw [Function.update_apply]
        split
        · rename_i ht
          have hd : d ∈ m.1 := by rw [h.members _ m hm, hx, ← ht]; rfl
          obtain ⟨-, hall⟩ | ⟨m', hm', -⟩ := hspec
          · exact absurd (hall d hd) hne
          · exact ⟨m', hm'⟩
        · exact h.present d x hx
      case nonempty =>
        intro t n hn
        obtain ⟨-, hn⟩ | ⟨-, hn⟩ := htop t n hn
        · exact (hleft n hn).1
        · exact h.nonempty t n hn
      case indexed =>
        intro t n hn
        obtain ⟨-, hn⟩ | ⟨-, hn⟩ := htop t n hn
        · exact (hleft n hn).2.1
        · exact h.indexed t n hn
      case members =>
        intro t n hn d
        show d ∈ n.1 ↔ (Function.update v.record dev none d).map (·.topicId) = some t
        rw [Function.update_apply]
        obtain ⟨rfl, hn'⟩ | ⟨ht, hn'⟩ := htop t n hn
        · rw [(hleft n hn').2.2 d, h.members _ m hm d]
          split
          · rename_i hd; simp [hd]
          · rename_i hd; simp [hd]
        · rw [h.members t n hn' d]
          split
          · rename_i hd
            rw [hd, hs]
            simp [Ne.symm ht]
          · rfl

/-! ## Records and owners

How each change keeps the owners' part. -/

/-- Rewriting a record for the same owner leaves the owner lists right. -/
theorem OwnerInv.put (h : v.OwnerInv o) (hs : v.record dev = some s)
    (howner : s'.owner = s.owner) : (v.put dev s').OwnerInv o := by
  refine ⟨h.1, fun d => ?_⟩
  simp only [View.put, Function.update_apply]
  rw [h.2 d]
  split
  · rename_i hd
    rw [hd, hs, Option.map_some, Option.map_some, howner]
  · rfl

/-- A takeover moves one device id from the old owner's list to the new one's. -/
theorem OwnerInv.pass (h : ∀ o, v.OwnerInv o) {n : Stub} (hs : v.record dev = some s)
    (hne : s.owner ≠ n.owner) (o : ConnKey) :
    ((v.pass dev s.owner n.owner).put dev n).OwnerInv o := by
  have hnew : dev ∉ v.owned n.owner := by
    rw [(h n.owner).2 dev, hs]
    simpa using hne
  have hleft : Function.update v.owned s.owner ((v.owned s.owner).filter (· ≠ dev)) n.owner =
      v.owned n.owner := Function.update_of_ne hne.symm _ _
  unfold View.OwnerInv View.put View.pass
  dsimp only
  rw [hleft]
  simp only [Function.update_apply]
  by_cases ho : o = n.owner
  · subst ho
    rw [if_pos rfl]
    refine ⟨(h _).1.append (List.nodup_singleton dev) ?_, fun d => ?_⟩
    · simpa using hnew
    · rw [List.mem_append, (h _).2 d, List.mem_singleton]
      split
      · rename_i hd; simp [hd]
      · rename_i hd; simp [hd]
  · rw [if_neg ho]
    split
    · rename_i hold
      subst hold
      refine ⟨(h _).1.filter _, fun d => ?_⟩
      rw [List.mem_filter, (h _).2 d]
      split
      · rename_i hd; simp [hd, Ne.symm ho]
      · rename_i hd; simp [hd]
    · rename_i hold
      refine ⟨(h o).1, fun d => ?_⟩
      rw [(h o).2 d]
      split
      · rename_i hd
        rw [hd, hs]
        simp [Ne.symm ho, Ne.symm hold]
      · rfl

/-- A new record joins its owner's list. -/
theorem OwnerInv.join (h : ∀ o, v.OwnerInv o) (hnone : v.record s.devId = none)
    (t : TopicId) (o : ConnKey) :
    ((v.join s.devId t s.owner).put s.devId s).OwnerInv o := by
  have hnew : s.devId ∉ v.owned s.owner := by
    rw [(h s.owner).2, hnone]
    simp
  unfold View.OwnerInv View.put View.join
  simp only [Function.update_apply]
  split
  · rename_i ho
    subst ho
    refine ⟨(h _).1.append (List.nodup_singleton _) (by simpa using hnew), fun d => ?_⟩
    rw [List.mem_append, (h _).2 d, List.mem_singleton]
    split
    · rename_i hd; simp [hd]
    · rename_i hd; simp [hd]
  · rename_i ho
    refine ⟨(h o).1, fun d => ?_⟩
    rw [(h o).2 d]
    split
    · rename_i hd
      rw [hd, hnone]
      simp [Ne.symm ho]
    · rfl

theorem record_remove (v : View) (dev d : DevId) :
    (v.remove dev).record d = if d = dev then none else v.record d := by
  unfold View.remove
  cases h : v.record dev with
  | none =>
      dsimp only
      split
      · rename_i hd; rw [hd]; exact h
      · rfl
  | some s => exact Function.update_apply _ _ _ _

@[simp] theorem owned_remove (v : View) (dev : DevId) : (v.remove dev).owned = v.owned := by
  unfold View.remove
  split <;> rfl

/-- Removals and owner lists do not interfere. -/
theorem remove_withOwned (v : View) (f : ConnKey → List DevId) (dev : DevId) :
    { v with owned := f }.remove dev = { v.remove dev with owned := f } := by
  unfold View.remove
  dsimp only
  cases v.record dev <;> rfl

/-! ## Removing several records of one owner

A connection that ends loses all its records at once, and its list with them. -/

/-- The records in `l` removed, and struck off their owner's list. -/
def strike (v : View) (o : ConnKey) (l : List DevId) : View :=
  { l.foldl remove v with
    owned := Function.update v.owned o ((v.owned o).filter (· ∉ l)) }

theorem record_foldl_remove (l : List DevId) (v : View) (d : DevId) :
    (l.foldl remove v).record d = if d ∈ l then none else v.record d := by
  induction l generalizing v with
  | nil => simp
  | cons a l ih =>
      rw [List.foldl_cons, ih, record_remove]
      by_cases hl : d ∈ l
      · simp [hl]
      · simp [hl]

theorem owned_foldl_remove (l : List DevId) (v : View) : (l.foldl remove v).owned = v.owned := by
  induction l generalizing v with
  | nil => rfl
  | cons a l ih => rw [List.foldl_cons, ih, owned_remove]

theorem TopicInv.foldl_remove (h : v.TopicInv derive known) (l : List DevId) :
    (l.foldl View.remove v).TopicInv derive known := by
  induction l generalizing v with
  | nil => exact h
  | cons a l ih => exact ih (h.remove a)

theorem secret_foldl_remove (l : List DevId) (v : View) :
    (l.foldl remove v).secret = v.secret := by
  induction l generalizing v with
  | nil => rfl
  | cons a l ih =>
      rw [List.foldl_cons, ih]
      unfold remove
      split <;> rfl

/-- Striking an owner's records keeps every index. -/
theorem Inv.strike (h : v.Inv derive key known) {l : List DevId}
    (hl : ∀ d ∈ l, d ∈ v.owned o) : (v.strike o l).Inv derive key known := by
  refine ⟨(secret_foldl_remove l v).trans h.secret, (h.topics.foldl_remove l).congr rfl rfl rfl, fun o' => ?_⟩
  unfold View.OwnerInv View.strike
  simp only [record_foldl_remove, Function.update_apply]
  split
  · rename_i ho
    subst ho
    refine ⟨(h.owners _).1.filter _, fun d => ?_⟩
    rw [List.mem_filter, (h.owners _).2 d]
    split
    · rename_i hd; simp [hd]
    · rename_i hd; simp [hd]
  · rename_i ho
    refine ⟨(h.owners o').1, fun d => ?_⟩
    rw [(h.owners o').2 d]
    split
    · rename_i hd
      rw [((h.owners o).2 d).mp (hl d hd)]
      simp [Ne.symm ho]
    · rfl

end View

namespace Registry

variable {P : Primitives} {r : Registry} {key : SymKey} {known : List (TopicId × Endpoint)}

theorem view_foldl_eraseEntry (l : List DevId) (r : Registry) :
    (l.foldl eraseEntry r).view = l.foldl View.remove r.view := by
  induction l generalizing r with
  | nil => rfl
  | cons a l ih => rw [List.foldl_cons, ih, view_eraseEntry, List.foldl_cons]

/-- The view after the owner lists were replaced. -/
theorem view_withByOwner (r : Registry) (m : AList fun _ : ConnKey => List DevId) :
    { r with byOwner := m }.view =
      { r.view with owned := fun o => (m.lookup o).getD [] } := by
  simp only [view, owned]

/-- `unregister` keeps no empty list: the key goes instead, which reads the
same. -/
theorem getD_lookup_store (m : AList fun _ : ConnKey => List DevId) (k o : ConnKey)
    (l : List DevId) :
    ((if l.isEmpty then m.erase k else m.insert k l).lookup o).getD [] =
      if o = k then l else (m.lookup o).getD [] := by
  cases hl : l.isEmpty with
  | true =>
      rw [if_pos rfl, lookup_erase_ite]
      split
      · exact (List.isEmpty_iff.mp hl).symm
      · rfl
  | false =>
      rw [if_neg Bool.false_ne_true, lookup_insert_ite]
      split <;> rfl

theorem view_unregister (r : Registry) (dev : DevId) (owner : ConnKey) :
    (r.unregister dev owner).2.view = r.view ∨
      (∃ e, r.byDev.lookup dev = some e ∧ e.owner = owner) ∧
        (r.unregister dev owner).2.view = r.view.strike owner [dev] := by
  unfold unregister
  cases h : r.byDev.lookup dev with
  | none => exact .inl rfl
  | some e =>
      dsimp only
      split
      · exact .inl rfl
      · rename_i ho
        refine .inr ⟨⟨e, rfl, by simpa using ho⟩, ?_⟩
        rw [view_eraseEntry, view_withByOwner, View.remove_withOwned]
        unfold View.strike
        simp only [View.mk.injEq, List.foldl_cons, List.foldl_nil, true_and]
        funext o
        rw [getD_lookup_store, Function.update_apply]
        simp only [List.mem_singleton, view, owned, ne_eq]

theorem view_dropOwner (r : Registry) (owner : ConnKey) :
    (r.dropOwner owner).2.view = r.view.strike owner (r.owned owner) := by
  have hfold := view_foldl_eraseEntry (r.owned owner) r
  unfold dropOwner
  dsimp only
  rw [view_withStats, view_releaseWhere, view_withByOwner, hfold]
  unfold View.strike
  simp only [View.mk.injEq, true_and]
  funext o
  rw [Function.update_apply, lookup_erase_ite]
  split
  · rename_i ho
    rw [Option.getD_none, eq_comm, List.filter_eq_nil_iff]
    intro d hd
    simpa [view] using hd
  · have howned : ((r.owned owner).foldl eraseEntry r).view.owned o = r.view.owned o := by
      rw [hfold, View.owned_foldl_remove]
    exact howned

/-! ## Every step, every run

One operation, and then any number of them, while the ids tell apart what was
registered. -/

/-- Pairs with one device id are one pair. -/
def Separates (P : Primitives) (secret : SymKey) (known : List (TopicId × Endpoint)) : Prop :=
  ∀ p ∈ known, ∀ q ∈ known,
    deriveDevId P secret p.1 p.2 = deriveDevId P secret q.1 q.2 → p = q

/-- A registration keeps every index: it finds the record of the same pair, or
makes a new one. -/
theorem inv_registerEntry (h : r.view.Inv (deriveDevId P) key known) (msg : Register)
    (src : Endpoint) (owner : ConnKey) (now : Instant) (hsep : Separates P key known)
    (hknown : (msg.id, src) ∈ known) :
    (r.registerEntry P msg src owner now).2.view.Inv (deriveDevId P) key known := by
  have heff := view_registerEntry P r msg src owner now
  have hkey : r.secret = key := h.secret
  dsimp only at heff
  generalize hdev : deriveDevId P r.secret msg.id src = dev at heff
  cases hrec : r.byDev.lookup dev with
  | some e =>
      simp only [hrec] at heff
      rw [heff.2]
      have hs : r.view.record dev = some e.stub := by simp only [view, hrec, Option.map_some]
      obtain ⟨hid, hder, hmem⟩ := h.topics.derived dev e.stub hs
      have hpair : (msg.id, src) = (e.stub.topicId, e.stub.addr) :=
        hsep _ hknown _ hmem (by rw [← hkey]; exact hdev.trans hder)
      obtain ⟨htopic, haddr⟩ := Prod.mk.inj hpair
      split
      · rename_i hne
        have hpass : (r.view.pass dev e.owner owner).TopicInv (deriveDevId P) known :=
          h.topics.congr rfl rfl rfl
        exact ⟨hkey, hpass.put hs hid.symm htopic haddr,
          View.OwnerInv.pass (n := ⟨dev, msg.id, src, owner⟩) h.owners hs hne⟩
      · rename_i heq
        exact ⟨hkey, h.topics.put hs hid.symm htopic haddr,
          fun o => (h.owners o).put hs (not_not.mp heq).symm⟩
  | none =>
      simp only [hrec] at heff
      have hs : r.view.record dev = none := by simp only [view, hrec, Option.map_none]
      obtain ⟨-, heff⟩ | ⟨-, heff⟩ := heff
      · rw [heff]; exact h
      · rw [heff]
        exact ⟨hkey, h.topics.join (s := ⟨dev, msg.id, src, owner⟩) hs hdev.symm
            hknown,
          View.OwnerInv.join (s := ⟨dev, msg.id, src, owner⟩) h.owners hs msg.id⟩

/-- Every operation keeps every index. -/
theorem inv_step (h : r.view.Inv (deriveDevId P) key known) (op : Op)
    (hsep : Separates P key known) (hop : ∀ p ∈ op.registers, p ∈ known) :
    (step P r op).view.Inv (deriveDevId P) key known := by
  have quiet : ∀ r' : Registry, r'.view = r.view → r'.view.Inv (deriveDevId P) key known := by
    intro r' hr'
    rw [hr']
    exact h
  cases op with
  | register msg src owner now =>
      exact inv_registerEntry h msg src owner now hsep (hop _ rfl)
  | unregister dev owner =>
      show (r.unregister dev owner).2.view.Inv (deriveDevId P) key known
      obtain heq | ⟨⟨e, he, ho⟩, heq⟩ := view_unregister r dev owner
      · rw [heq]; exact h
      · rw [heq]
        refine h.strike fun d hd => ?_
        rw [List.mem_singleton.mp hd, (h.owners owner).2 dev]
        simp only [view, he, Option.map_some, Entry.stub, ho]
  | dropOwner owner =>
      show (r.dropOwner owner).2.view.Inv (deriveDevId P) key known
      rw [view_dropOwner]
      exact h.strike fun d hd => hd
  | relayAlloc src peer kind owner addr now draws =>
      show (((r.relayAlloc src peer kind owner addr now draws).map (·.2)).getD r).view.Inv
        (deriveDevId P) key known
      cases hr : r.relayAlloc src peer kind owner addr now draws with
      | none => exact h
      | some p => exact quiet _ (view_relayAlloc hr)
  | refresh dev owner now => exact quiet _ (view_refresh r dev owner now)
  | update msg owner now => exact quiet _ (view_update r msg owner now)
  | lookup t max wantMeta now s => exact quiet _ (view_lookup r t max wantMeta now s)
  | resolve dev now => exact h
  | listTopics cursor limit now => exact quiet _ (view_expireFresh r now)
  | connectTarget src dst owner => exact quiet _ (view_connectTarget r src dst owner)
  | relayCharge id bytes now => exact quiet _ (view_relayCharge r id bytes now)
  | udpBind id token src now => exact quiet _ (view_udpBind r id token src now)
  | udpForward id src bytes now => exact quiet _ (view_udpForward r id src bytes now)
  | relayClose id => exact quiet _ (view_relayClose r id)
  | sweep now => exact quiet _ ((view_releaseWhere _ _).trans (view_expireFresh r now))
  | stats now => exact quiet _ (view_expireFresh r now)

/-- Every run keeps every index. -/
theorem inv_run (h : r.view.Inv (deriveDevId P) key known) (ops : List Op)
    (hsep : Separates P key known) (hops : ∀ op ∈ ops, ∀ p ∈ op.registers, p ∈ known) :
    (run (step P) r ops).view.Inv (deriveDevId P) key known :=
  run_invariant_of_allSteps (I := fun r => r.view.Inv (deriveDevId P) key known)
    (fun _ op hop hr => inv_step hr op hsep hop) h ops (allSteps_of_forall hops r)

/-! ## The containers, read directly

The invariant without the view, in the words of the class. -/

/-- The registry's containers agree. -/
structure Consistent (r : Registry) : Prop where
  /-- A record is filed under its own device id. -/
  filed : ∀ dev e, r.byDev.lookup dev = some e → e.devId = dev
  /-- The topics are the records' topics. -/
  topics : ∀ t, t ∈ r.topics ↔ ∃ dev e, r.byDev.lookup dev = some e ∧ e.topicId = t
  /-- A topic's members are its records, once each. -/
  members : ∀ t s, r.topics.lookup t = some s → s.members.Nodup ∧
    ∀ dev, dev ∈ s.members ↔ ∃ e, r.byDev.lookup dev = some e ∧ e.topicId = t
  /-- The position index is the member list. -/
  pos : ∀ t s, r.topics.lookup t = some s →
    ∀ dev i, s.pos.lookup dev = some i ↔ s.members[i]? = some dev
  /-- A connection's list is the records it owns, once each. -/
  owners : ∀ o, (r.owned o).Nodup ∧
    ∀ dev, dev ∈ r.owned o ↔ ∃ e, r.byDev.lookup dev = some e ∧ e.owner = o

theorem record_map (r : Registry) {α : Type} (f : Stub → α) (dev : DevId) (a : α) :
    (r.view.record dev).map f = some a ↔ ∃ e, r.byDev.lookup dev = some e ∧ f e.stub = a := by
  simp only [view, Option.map_map, Option.map_eq_some_iff, Function.comp]

theorem consistent_of_inv (h : r.view.Inv (deriveDevId P) key known) : r.Consistent where
  filed dev e he := (h.topics.derived dev e.stub (by simp only [view, he, Option.map_some])).1
  topics t := by
    rw [← AList.lookup_isSome, Option.isSome_iff_exists]
    constructor
    · rintro ⟨s, hs⟩
      have hv : r.view.topic t = some s.roll := by simp only [view, hs, Option.map_some]
      obtain ⟨dev, hdev⟩ := List.exists_mem_of_ne_nil _ (h.topics.nonempty t _ hv)
      obtain ⟨e, he, ht⟩ := (record_map r _ dev t).mp ((h.topics.members t _ hv dev).mp hdev)
      exact ⟨dev, e, he, ht⟩
    · rintro ⟨dev, e, he, rfl⟩
      have hs : r.view.record dev = some e.stub := by simp only [view, he, Option.map_some]
      obtain ⟨m, hm⟩ := h.topics.present dev e.stub hs
      obtain ⟨s, hs, -⟩ := Option.map_eq_some_iff.mp hm
      exact ⟨s, hs⟩
  members t s hs := by
    have hv : r.view.topic t = some s.roll := by simp only [view, hs, Option.map_some]
    refine ⟨(h.topics.indexed t _ hv).nodup, fun dev => ?_⟩
    exact (h.topics.members t _ hv dev).trans (record_map r _ dev t)
  pos t s hs := by
    have hv : r.view.topic t = some s.roll := by simp only [view, hs, Option.map_some]
    exact h.topics.indexed t _ hv
  owners o := by
    refine ⟨(h.owners o).1, fun dev => ?_⟩
    exact ((h.owners o).2 dev).trans (record_map r _ dev o)

/-- A consistent registry knows how many records a connection owns. -/
theorem Consistent.length_owned (h : r.Consistent) (o : ConnKey) :
    (r.owned o).length = (r.byDev.entries.filter fun it => it.2.owner = o).length := by
  have hkeys : ((r.byDev.entries.filter fun it => it.2.owner = o).map Sigma.fst).Nodup :=
    (List.filter_sublist.map Sigma.fst).nodup r.byDev.nodupKeys
  have hperm : (r.owned o).Perm
      ((r.byDev.entries.filter fun it => it.2.owner = o).map Sigma.fst) := by
    rw [List.perm_ext_iff_of_nodup (h.owners o).1 hkeys]
    intro dev
    rw [(h.owners o).2 dev, List.mem_map]
    constructor
    · rintro ⟨e, he, ho⟩
      refine ⟨⟨dev, e⟩, List.mem_filter.mpr ⟨AList.mem_lookup_iff.mp he, ?_⟩, rfl⟩
      simpa using ho
    · rintro ⟨⟨d, e⟩, hmem, rfl⟩
      obtain ⟨hin, ho⟩ := List.mem_filter.mp hmem
      exact ⟨e, AList.mem_lookup_iff.mpr hin, by simpa using ho⟩
  rw [hperm.length_eq, List.length_map]

theorem lookup_eraseEntry (r : Registry) (dev d : DevId) :
    (r.eraseEntry dev).byDev.lookup d = if d = dev then none else r.byDev.lookup d := by
  unfold eraseEntry
  cases h : r.byDev.lookup dev with
  | none =>
      dsimp only
      split
      · rename_i hd; rw [hd]; exact h
      · rfl
  | some e =>
      dsimp only
      rw [byDev_leaveTopic, byDev_forgetFresh, lookup_erase_ite]

theorem lookup_foldl_eraseEntry (l : List DevId) (r : Registry) (d : DevId) :
    (l.foldl eraseEntry r).byDev.lookup d = if d ∈ l then none else r.byDev.lookup d := by
  induction l generalizing r with
  | nil => simp
  | cons a l ih =>
      rw [List.foldl_cons, ih, lookup_eraseEntry]
      by_cases hl : d ∈ l
      · simp [hl]
      · simp [hl]

@[simp] theorem byDev_releaseWhere (r : Registry) (dead : Relay → Bool) :
    (r.releaseWhere dead).byDev = r.byDev := by
  unfold releaseWhere
  generalize List.filter _ _ = l
  induction l generalizing r with
  | nil => rfl
  | cons it l ih =>
      rw [List.foldl_cons, ih]
      unfold releaseRelay
      dsimp only

/-- Dropping a connection removes its records and no other. -/
theorem Consistent.lookup_dropOwner (h : r.Consistent) (o : ConnKey) (dev : DevId) :
    (r.dropOwner o).2.byDev.lookup dev = (r.byDev.lookup dev).filter (·.owner ≠ o) := by
  unfold dropOwner
  dsimp only
  rw [byDev_releaseWhere, lookup_foldl_eraseEntry]
  have howned := (h.owners o).2 dev
  cases he : r.byDev.lookup dev with
  | none => simp
  | some e =>
      simp only [he, Option.some.injEq, exists_eq_left'] at howned
      simp only [howned, Option.filter_some]
      by_cases ho : e.owner = o
      · simp [ho]
      · simp [ho]

/-- In every state a run reaches, records, topics, positions and owner lists
agree; so dropping a connection removes the records it owns and no other, and
returns their number.  Assumed is that device ids tell apart the pairs of topic
and address the run registers. -/
theorem registry_indexes_agree (P : Primitives) (cfg : RegistryConfig) (secret : SymKey)
    (ops : List Op)
    (hsep : Separates P secret (ops.filterMap Op.registers)) :
    let r := run (step P) { cfg := cfg, secret := secret } ops
    r.Consistent ∧ ∀ o,
      (∀ dev, (r.dropOwner o).2.byDev.lookup dev =
        (r.byDev.lookup dev).filter (·.owner ≠ o)) ∧
      (r.dropOwner o).1 = (r.byDev.entries.filter fun it => it.2.owner = o).length := by
  intro r
  have hinit : View.Inv (deriveDevId P) secret (ops.filterMap Op.registers)
      (Registry.view { cfg := cfg, secret := secret }) := View.inv_empty
  have hcons : r.Consistent := by
    refine consistent_of_inv (inv_run hinit ops hsep fun op hop p hp => ?_)
    exact List.mem_filterMap.mpr ⟨op, hop, hp⟩
  exact ⟨hcons, fun o => ⟨hcons.lookup_dropOwner o, hcons.length_owned o⟩⟩

/-- A registration, a second topic, a takeover by another connection, and a
close. -/
def sampleOps : List Op :=
  [.register { id := Vector.replicate 16 1 } { port := 7 } 1 0,
   .register { id := Vector.replicate 16 2 } { port := 7 } 1 0,
   .register { id := Vector.replicate 16 1 } { port := 7 } 2 5,
   .dropOwner 1]

theorem registry_indexes_agree_sample :
    Separates Primitives.checksum (Vector.replicate 32 0) (sampleOps.filterMap Op.registers) ∧
    (run (step Primitives.checksum) { secret := Vector.replicate 32 0 } sampleOps).Consistent ∧
    ((run (step Primitives.checksum) { secret := Vector.replicate 32 0 } sampleOps).dropOwner
      2).1 = 1 := by
  have hsep : Separates Primitives.checksum (Vector.replicate 32 0)
      (sampleOps.filterMap Op.registers) := by
    unfold Separates
    decide +kernel
  obtain ⟨hcons, hdrop⟩ := registry_indexes_agree Primitives.checksum {}
    (Vector.replicate 32 0) sampleOps hsep
  refine ⟨hsep, hcons, ?_⟩
  rw [(hdrop 2).2]
  decide +kernel

end Registry

end UConnect.Server
