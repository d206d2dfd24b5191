/-
  Server/RelayOwnership.lean --- whose connection a relay binding is.

  A binding copies, when it is made, the connection of each of its two records.
  The record itself can change hands afterwards: a device that registers again
  over another connection takes its record over.  `Homed` says that the copy
  still is the record's connection; every operation keeps it except a
  registration that rehomes a device of the binding.  While it holds, an
  allocation offers the binding to the connection that owns the peer's record,
  and closing a connection takes down the bindings of the records it owns.

  A device may also unregister and leave its binding in place.  Such a side
  still belongs to the connection that held it: the binding goes down with that
  connection, although it owns no record any more.
-/
import UConnect.Foundation.Run
import UConnect.Server.RegistryIndex

set_option autoImplicit false

namespace UConnect.Server

open UConnect UConnect.Foundation UConnect.Crypto

namespace Registry

variable {P : Primitives} {r r' : Registry} {id : RelayId}

/-! ## Which operations touch the bindings

The frame: everything about records leaves the bindings alone. -/

@[simp] theorem relays_forgetFresh (r : Registry) (e : Entry) :
    (r.forgetFresh e).relays = r.relays := by
  unfold forgetFresh
  split
  · dsimp only
  · rfl

@[simp] theorem relays_markFresh (r : Registry) (dev : DevId) (now : Instant) :
    (r.markFresh dev now).relays = r.relays := by
  unfold markFresh
  split
  · rfl
  · dsimp only
    exact relays_forgetFresh r _

@[simp] theorem relays_expireFresh (r : Registry) (now : Instant) :
    (r.expireFresh now).relays = r.relays := by
  unfold expireFresh
  generalize List.takeWhile _ _ = l
  induction l generalizing r with
  | nil => rfl
  | cons e l ih =>
      rw [List.foldl_cons, ih]
      unfold expireOne
      dsimp only

theorem relays_registerEntry (r : Registry) (msg : Register) (src : Endpoint)
    (owner : ConnKey) (now : Instant) :
    (r.registerEntry P msg src owner now).2.relays = r.relays := by
  have htake : ∀ (r : Registry) (dev : DevId) (e : Entry),
      (r.takeOver dev e owner).relays = r.relays := by
    intro r dev e
    unfold takeOver
    dsimp only
  have hadd : ∀ (r : Registry) (dev : DevId),
      (r.addRecord msg dev src owner).relays = r.relays := by
    intro r dev
    unfold addRecord openTopic
    dsimp only
    split <;> dsimp only
  have hwrite : ∀ (r : Registry) (dev : DevId),
      (r.writeRecord msg dev src owner now).relays = r.relays := by
    intro r dev
    unfold writeRecord
    dsimp only
    split
    · exact relays_markFresh _ dev now
    · exact relays_markFresh _ dev now
  unfold registerEntry
  dsimp only
  cases r.byDev.lookup (deriveDevId P r.secret msg.id src) with
  | none =>
      simp only [Option.isNone_none, Bool.true_and, if_true]
      split
      · dsimp only
      · dsimp only
        rw [hwrite, hadd]
  | some e =>
      simp only [Option.isNone_some, Bool.false_and, Bool.false_eq_true, if_false]
      rw [hwrite]
      split
      · exact htake r _ e
      · rfl

@[simp] theorem relays_leaveTopic (r : Registry) (dev : DevId) (e : Entry) :
    (r.leaveTopic dev e).relays = r.relays := by
  unfold leaveTopic
  split
  · rfl
  · dsimp only
    split <;> dsimp only

@[simp] theorem relays_eraseEntry (r : Registry) (dev : DevId) :
    (r.eraseEntry dev).relays = r.relays := by
  unfold eraseEntry
  split
  · rfl
  · dsimp only
    rw [relays_leaveTopic, relays_forgetFresh]

theorem relays_foldl_eraseEntry (l : List DevId) (r : Registry) :
    (l.foldl eraseEntry r).relays = r.relays := by
  induction l generalizing r with
  | nil => rfl
  | cons a l ih => rw [List.foldl_cons, ih, relays_eraseEntry]

theorem relays_unregister (r : Registry) (dev : DevId) (owner : ConnKey) :
    (r.unregister dev owner).2.relays = r.relays := by
  unfold unregister
  split
  · rfl
  · split
    · rfl
    · dsimp only
      rw [relays_eraseEntry]

theorem lookup_foldl_releaseRelay (l : List (Σ _ : RelayId, Relay)) (r : Registry)
    (id : RelayId) :
    (l.foldl releaseRelay r).relays.lookup id =
      if id ∈ l.map Sigma.fst then none else r.relays.lookup id := by
  induction l generalizing r with
  | nil => simp
  | cons it l ih =>
      have hone : (r.releaseRelay it).relays.lookup id =
          if id = it.1 then none else r.relays.lookup id := lookup_erase_ite r.relays it.1 id
      rw [List.foldl_cons, ih, hone, List.map_cons]
      by_cases hl : id ∈ l.map Sigma.fst
      · rw [if_pos hl, if_pos (List.mem_cons_of_mem _ hl)]
      · rw [if_neg hl]
        simp only [List.mem_cons, hl, or_false]

/-- Releasing by a test is filtering the bindings by it. -/
theorem lookup_releaseWhere (r : Registry) (dead : Relay → Bool) (id : RelayId) :
    (r.releaseWhere dead).relays.lookup id =
      (r.relays.lookup id).filter fun b => !dead b := by
  unfold releaseWhere
  rw [lookup_foldl_releaseRelay]
  have hmem : id ∈ (r.relays.entries.filter fun it => dead it.2).map Sigma.fst ↔
      ∃ b, r.relays.lookup id = some b ∧ dead b := by
    rw [List.mem_map]
    constructor
    · rintro ⟨⟨i, b⟩, hit, rfl⟩
      obtain ⟨hin, hd⟩ := List.mem_filter.mp hit
      exact ⟨b, AList.mem_lookup_iff.mpr hin, hd⟩
    · rintro ⟨b, hb, hd⟩
      exact ⟨⟨id, b⟩, List.mem_filter.mpr ⟨AList.mem_lookup_iff.mp hb, hd⟩, rfl⟩
  cases hb : r.relays.lookup id with
  | none => simp
  | some b =>
      simp only [hmem, hb, Option.some.injEq, exists_eq_left', Option.filter_some]
      cases dead b <;> rfl

/-- Dropping a connection releases the bindings that name it. -/
theorem relays_dropOwner (r : Registry) (owner : ConnKey) (id : RelayId) :
    (r.dropOwner owner).2.relays.lookup id =
      (r.relays.lookup id).filter fun b => !(b.owner 0 = owner || b.owner 1 = owner) := by
  unfold dropOwner
  dsimp only
  rw [lookup_releaseWhere]
  dsimp only
  rw [relays_foldl_eraseEntry]

theorem pairSide_some {b : Relay} {src peer : DevId} {side : Fin 2}
    (h : pairSide b src peer = some side) : b.dev side = src ∧ b.dev (1 - side) = peer := by
  unfold pairSide at h
  split at h
  · rename_i hp
    obtain rfl := Option.some.inj h
    exact hp
  · split at h
    · rename_i hp
      obtain rfl := Option.some.inj h
      exact hp
    · cases h

theorem findBinding_some {src peer : DevId} {kind : RelayKind} {b : Relay} {side : Fin 2}
    (h : r.findBinding src peer kind = some (⟨id, b⟩, side)) :
    r.relays.lookup id = some b ∧ pairSide b src peer = some side := by
  unfold findBinding at h
  obtain ⟨it, hit, hsome⟩ := List.exists_of_findSome?_eq_some h
  split at hsome
  · cases hsome
  · obtain ⟨side', hside, heq⟩ := Option.map_eq_some_iff.mp hsome
    obtain ⟨rfl, rfl⟩ := Prod.mk.inj heq
    exact ⟨AList.mem_lookup_iff.mpr hit, hside⟩

/-- Everything an allocation can do: refuse, hand out the pair's binding again,
or make a new one. -/
theorem relayAlloc_cases {src peer : DevId} {kind : RelayKind} {owner : ConnKey}
    {addr : Endpoint} {now : Instant} {draws : RelayDraws} {g : RelayGrant}
    (h : r.relayAlloc src peer kind owner addr now draws = some (g, r')) :
    (g.code ≠ .none ∧ r'.relays = r.relays) ∨
    ∃ f p, g.code = .none ∧ r.byDev.lookup src = some f ∧ r.byDev.lookup peer = some p ∧
      f.owner = owner ∧
      ((∃ b side, r.relays.lookup g.id = some b ∧ pairSide b src peer = some side ∧
          g.peerOwner = b.owner (1 - side) ∧
          r'.relays = r.relays.insert g.id { b with lastSeen := now }) ∨
        (∃ b : Relay, g.id ∉ r.relays ∧ g.peerOwner = p.owner ∧ b.dev = ![src, peer] ∧
          b.owner = ![owner, p.owner] ∧ r'.relays = r.relays.insert g.id b)) := by
  cases allocation h with
  | barred hcode => exact .inl ⟨hcode, rfl⟩
  | full => exact .inl ⟨by simp, rfl⟩
  | found hf hp howner _ hfind =>
      obtain ⟨hb, hside⟩ := findBinding_some hfind
      exact .inr ⟨_, _, rfl, hf, hp, howner, .inl ⟨_, _, hb, hside, rfl, rfl⟩⟩
  | made hf hp howner _ _ _ _ _ _ hnew =>
      exact .inr ⟨_, _, rfl, hf, hp, howner, .inr ⟨_, hnew, rfl, rfl, rfl, rfl⟩⟩

/-! ## The invariant

The owner a binding has copied is the record's owner still, for either side that
has a record. -/

/-- The connection that owns a device's record. -/
def ownerOf (r : Registry) (dev : DevId) : Option ConnKey :=
  (r.byDev.lookup dev).map (·.owner)

theorem ownerOf_eq_view (r : Registry) (dev : DevId) :
    r.ownerOf dev = (r.view.record dev).map (·.owner) := by
  simp only [ownerOf, view, Option.map_map]
  rfl

/-- The records of binding `id` are with the connections the binding copied. -/
def Homed (r : Registry) (id : RelayId) : Prop :=
  ∀ b, r.relays.lookup id = some b → ∀ side o, r.ownerOf (b.dev side) = some o →
    o = b.owner side

/-- `op` registers a device of the live binding `id` over another connection
than the one the binding copied, and the registry agrees. -/
def Rehomes (P : Primitives) (r : Registry) (id : RelayId) : Op → Prop
  | .register msg src owner now =>
      (r.registerEntry P msg src owner now).1.code = .none ∧
        ∃ b ∈ r.relays.lookup id, ∃ side,
          b.dev side = deriveDevId P r.secret msg.id src ∧ b.owner side ≠ owner
  | _ => False

instance Rehomes.decidable (P : Primitives) (r : Registry) (id : RelayId) (op : Op) :
    Decidable (Rehomes P r id op) := by
  cases op
  case register msg src owner now =>
    exact inferInstanceAs (Decidable ((r.registerEntry P msg src owner now).1.code = .none ∧
      ∃ b ∈ r.relays.lookup id, ∃ side,
        b.dev side = deriveDevId P r.secret msg.id src ∧ b.owner side ≠ owner))
  all_goals exact .isFalse fun h => h

/-- Losing bindings and records does no harm. -/
theorem Homed.of_sub (h : r.Homed id)
    (hrel : ∀ b', r'.relays.lookup id = some b' →
      ∃ b, r.relays.lookup id = some b ∧ b'.dev = b.dev ∧ b'.owner = b.owner)
    (hown : ∀ dev o, r'.ownerOf dev = some o → r.ownerOf dev = some o) : r'.Homed id := by
  intro b' hb' side o ho
  obtain ⟨b, hb, hdev, howner⟩ := hrel b' hb'
  rw [howner]
  rw [hdev] at ho
  exact h b hb side o (hown _ o ho)

theorem Homed.of_view (h : r.Homed id) (hrel : r'.relays = r.relays)
    (hview : r'.view = r.view) : r'.Homed id := by
  refine h.of_sub (fun b hb => ?_) (fun dev o ho => ?_)
  · rw [hrel] at hb
    exact ⟨b, hb, rfl, rfl⟩
  · rwa [ownerOf_eq_view, ← hview, ← ownerOf_eq_view]

/-- Rewriting a binding's own fields does no harm. -/
theorem Homed.of_insert (h : r.Homed id) {i : RelayId} {b c : Relay}
    (hb : r.relays.lookup i = some b) (hrel : r'.relays = r.relays.insert i c)
    (hview : r'.view = r.view) (hdev : c.dev = b.dev) (howner : c.owner = b.owner) :
    r'.Homed id := by
  refine h.of_sub (fun b' hb' => ?_) (fun dev o ho => ?_)
  · rw [hrel, lookup_insert_ite] at hb'
    split at hb'
    · rename_i hid
      subst hid
      obtain rfl := Option.some.inj hb'
      exact ⟨b, hb, hdev, howner⟩
    · exact ⟨b', hb', rfl, rfl⟩
  · rwa [ownerOf_eq_view, ← hview, ← ownerOf_eq_view]

theorem ownerOf_of_strike {o : ConnKey} {l : List DevId}
    (hview : r'.view = r.view.strike o l) (dev : DevId) (c : ConnKey)
    (hc : r'.ownerOf dev = some c) : r.ownerOf dev = some c := by
  rw [ownerOf_eq_view, hview] at hc
  rw [ownerOf_eq_view]
  unfold View.strike at hc
  dsimp only at hc
  rw [View.record_foldl_remove] at hc
  split at hc
  · cases hc
  · exact hc

/-- A registration that is not refused makes its connection the owner of its
record, and touches no other record. -/
theorem ownerOf_registerEntry (r : Registry) (msg : Register) (src : Endpoint)
    (owner : ConnKey) (now : Instant) (dev : DevId) :
    (r.registerEntry P msg src owner now).2.ownerOf dev =
      if (r.registerEntry P msg src owner now).1.code = .none ∧
          dev = deriveDevId P r.secret msg.id src then some owner
      else r.ownerOf dev := by
  have heff := view_registerEntry P r msg src owner now
  dsimp only at heff
  -- whatever else it does to the view, the records change at one id
  have hput : ∀ v : View, v.record = r.view.record → ∀ d : DevId,
      (((v.put d ⟨d, msg.id, src, owner⟩).record dev).map (·.owner)) =
        if dev = d then some owner else r.ownerOf dev := by
    intro v hv d
    rw [ownerOf_eq_view, ← hv]
    simp only [View.put, Function.update_apply]
    split <;> rfl
  rw [ownerOf_eq_view]
  cases hrec : r.byDev.lookup (deriveDevId P r.secret msg.id src) with
  | some e =>
      simp only [hrec] at heff
      rw [heff.2, hput _ (by split <;> rfl)]
      simp only [heff.1, true_and]
  | none =>
      simp only [hrec] at heff
      obtain ⟨hcode, hview⟩ | ⟨hcode, hview⟩ := heff
      · rw [hview, ← ownerOf_eq_view, if_neg]
        simp [hcode]
      · rw [hview, hput (r.view.join _ _ _) rfl]
        simp only [hcode, true_and]

theorem Homed.registerEntry (h : r.Homed id) {msg : Register} {src : Endpoint}
    {owner : ConnKey} {now : Instant}
    (hop : ¬ Rehomes P r id (.register msg src owner now)) :
    (r.registerEntry P msg src owner now).2.Homed id := by
  intro b hb side o ho
  rw [relays_registerEntry] at hb
  rw [ownerOf_registerEntry] at ho
  split at ho
  · rename_i hdev
    obtain rfl := Option.some.inj ho
    by_contra hne
    exact hop ⟨hdev.1, b, hb, side, hdev.2, Ne.symm hne⟩
  · exact h b hb side o ho

theorem Homed.releaseWhere (h : r.Homed id) (dead : Relay → Bool) :
    (r.releaseWhere dead).Homed id := by
  refine h.of_sub (fun b hb => ?_) (fun dev o ho => ?_)
  · rw [lookup_releaseWhere] at hb
    exact ⟨b, (Option.filter_eq_some_iff.mp hb).1, rfl, rfl⟩
  · rwa [ownerOf_eq_view, view_releaseWhere, ← ownerOf_eq_view] at ho

theorem Homed.relayAlloc (h : r.Homed id) {src peer : DevId} {kind : RelayKind}
    {owner : ConnKey} {addr : Endpoint} {now : Instant} {draws : RelayDraws} {g : RelayGrant}
    (ha : r.relayAlloc src peer kind owner addr now draws = some (g, r')) : r'.Homed id := by
  have hview := view_relayAlloc ha
  obtain ⟨-, hrel⟩ | ⟨f, p, -, hf, hp, hown, hcase⟩ := relayAlloc_cases ha
  · exact h.of_view hrel hview
  obtain ⟨b, side, hb, -, -, hrel⟩ | ⟨b, -, -, hdev, howner, hrel⟩ := hcase
  · exact h.of_insert hb hrel hview rfl rfl
  · -- a new binding copies the owners as they are
    intro c hc side o ho
    rw [ownerOf_eq_view, hview, ← ownerOf_eq_view] at ho
    rw [hrel, lookup_insert_ite] at hc
    split at hc
    · obtain rfl := Option.some.inj hc
      rw [hdev] at ho
      rw [howner]
      obtain rfl | rfl : side = 0 ∨ side = 1 := by omega
      · change (r.byDev.lookup src).map (·.owner) = some o at ho
        rw [hf, Option.map_some, Option.some.injEq] at ho
        exact ho.symm.trans hown
      · change (r.byDev.lookup peer).map (·.owner) = some o at ho
        rw [hp, Option.map_some, Option.some.injEq] at ho
        exact ho.symm
    · exact h c hc side o ho

theorem Homed.relayCharge (h : r.Homed id) (i : RelayId) (bytes : Nat) (now : Instant) :
    (r.relayCharge i bytes now).2.Homed id := by
  have hview := view_relayCharge r i bytes now
  unfold Registry.relayCharge at hview ⊢
  split
  · exact h
  · rename_i b hb
    simp only [hb] at hview
    split
    · rename_i hex
      rw [if_pos hex] at hview
      exact h.of_insert hb rfl hview rfl rfl
    · rename_i hex
      rw [if_neg hex] at hview
      exact h.of_insert hb rfl hview rfl rfl

theorem Homed.udpBind (h : r.Homed id) (i : RelayId) (token : RelayToken) (src : Endpoint)
    (now : Instant) : (r.udpBind i token src now).2.Homed id := by
  have hview := view_udpBind r i token src now
  unfold Registry.udpBind at hview ⊢
  split
  · exact h
  · rename_i b hb
    simp only [hb] at hview
    split
    · exact h
    · rename_i hkind
      rw [if_neg hkind] at hview
      split
      · exact h
      · rename_i side hside
        simp only [hside] at hview
        exact h.of_insert hb rfl hview rfl rfl

theorem Homed.udpForward (h : r.Homed id) (i : RelayId) (src : Endpoint) (bytes : Nat)
    (now : Instant) : (r.udpForward i src bytes now).2.Homed id := by
  unfold Registry.udpForward
  split
  · exact h
  · rename_i b _
    split
    · exact h
    · dsimp only
      generalize (if (b.udp 0).any (·.same src) then some (0 : Fin 2)
        else if (b.udp 1).any (·.same src) then some 1 else none) = side
      cases side with
      | none => exact h
      | some side =>
          dsimp only
          split
          · exact h
          · exact h.relayCharge i bytes now

/-- Every operation that does not rehome the binding keeps it homed. -/
theorem Homed.step (h : r.Homed id) (op : Op) (hop : ¬ Rehomes P r id op) :
    (Registry.step P r op).Homed id := by
  cases op with
  | register msg src owner now => exact h.registerEntry hop
  | refresh dev owner now =>
      refine h.of_view ?_ (view_refresh r dev owner now)
      show (r.refresh dev owner now).2.relays = r.relays
      unfold Registry.refresh
      repeat' split
      all_goals first | rfl | exact relays_markFresh r dev now
  | update msg owner now =>
      refine h.of_view ?_ (view_update r msg owner now)
      show (r.update msg owner now).2.relays = r.relays
      unfold Registry.update
      repeat' split
      all_goals first | rfl | exact relays_markFresh _ msg.devId now
  | unregister dev owner =>
      obtain hview | ⟨-, hview⟩ := view_unregister r dev owner
      · exact h.of_view (relays_unregister r dev owner) hview
      · refine h.of_sub (fun b hb => ⟨b, ?_, rfl, rfl⟩) (ownerOf_of_strike hview)
        rwa [show (Registry.step P r (.unregister dev owner)).relays = r.relays from
          relays_unregister r dev owner] at hb
  | dropOwner owner =>
      refine h.of_sub (fun b hb => ⟨b, ?_, rfl, rfl⟩) (ownerOf_of_strike (view_dropOwner r owner))
      rw [show (Registry.step P r (.dropOwner owner)).relays.lookup id = _ from
        relays_dropOwner r owner id] at hb
      exact (Option.filter_eq_some_iff.mp hb).1
  | lookup t max wantMeta now s =>
      refine h.of_view ?_ (view_lookup r t max wantMeta now s)
      show (r.lookup t max wantMeta now s).2.relays = r.relays
      unfold Registry.lookup
      dsimp only
      split <;> rfl
  | resolve dev now => exact h
  | listTopics cursor limit now =>
      exact h.of_view (relays_expireFresh r now) (view_expireFresh r now)
  | connectTarget src dst owner =>
      refine h.of_view ?_ (view_connectTarget r src dst owner)
      show (r.connectTarget src dst owner).2.relays = r.relays
      unfold Registry.connectTarget
      repeat' split
      all_goals rfl
  | relayAlloc src peer kind owner addr now draws =>
      show (((r.relayAlloc src peer kind owner addr now draws).map (·.2)).getD r).Homed id
      cases hr : r.relayAlloc src peer kind owner addr now draws with
      | none => exact h
      | some p => exact h.relayAlloc hr
  | relayCharge i bytes now => exact h.relayCharge i bytes now
  | udpBind i token src now => exact h.udpBind i token src now
  | udpForward i src bytes now => exact h.udpForward i src bytes now
  | relayClose i =>
      show (r.relayClose i).Homed id
      unfold Registry.relayClose
      split
      · exact h
      · rename_i b hb
        refine h.of_sub (fun c hc => ⟨c, ?_, rfl, rfl⟩) (fun dev o ho => ?_)
        · rw [show (r.releaseRelay ⟨i, b⟩).relays.lookup id = _ from
            lookup_erase_ite r.relays i id] at hc
          split at hc
          · cases hc
          · exact hc
        · rwa [ownerOf_eq_view, view_releaseRelay, ← ownerOf_eq_view] at ho
  | sweep now =>
      have hfresh : (r.expireFresh now).Homed id :=
        h.of_view (relays_expireFresh r now) (view_expireFresh r now)
      exact hfresh.releaseWhere _
  | stats now => exact h.of_view (relays_expireFresh r now) (view_expireFresh r now)

/-! ## What allocations and closed connections do

The offer goes to the owner of the peer's record, and a closed connection takes
its bindings along. -/

/-- The connection a side of a binding answers to: the owner of its record, or,
once that is unregistered, the connection that held it. -/
def answersTo (r : Registry) (b : Relay) (side : Fin 2) : ConnKey :=
  (r.ownerOf (b.dev side)).getD (b.owner side)

theorem Homed.answersTo_eq (h : r.Homed id) {b : Relay} (hb : r.relays.lookup id = some b)
    (side : Fin 2) : r.answersTo b side = b.owner side := by
  unfold answersTo
  cases ho : r.ownerOf (b.dev side) with
  | none => rfl
  | some o => exact h b hb side o ho

/-- An allocation offers a homed binding to the owner of the peer's record. -/
theorem Homed.peerOwner {src peer : DevId} {kind : RelayKind} {owner : ConnKey}
    {addr : Endpoint} {now : Instant} {draws : RelayDraws} {g : RelayGrant}
    (ha : r.relayAlloc src peer kind owner addr now draws = some (g, r'))
    (hcode : g.code = .none) (h : r.Homed g.id) : r.ownerOf peer = some g.peerOwner := by
  obtain ⟨hne, -⟩ | ⟨f, p, -, -, hp, -, hcase⟩ := relayAlloc_cases ha
  · exact absurd hcode hne
  have hown : r.ownerOf peer = some p.owner := by rw [ownerOf, hp]; rfl
  obtain ⟨b, side, hb, hside, hpeer, -⟩ | ⟨b, -, hpeer, -⟩ := hcase
  · rw [hown, hpeer]
    refine congrArg some (h b hb (1 - side) p.owner ?_)
    rw [(pairSide_some hside).2, hown]
  · rw [hown, hpeer]

/-- Closing a connection takes down a homed binding exactly if one of its sides
answers to that connection. -/
theorem Homed.dropOwner (h : r.Homed id) {b : Relay} (hb : r.relays.lookup id = some b)
    (o : ConnKey) : id ∉ (r.dropOwner o).2.relays ↔ ∃ side, r.answersTo b side = o := by
  rw [← AList.lookup_isSome, relays_dropOwner, hb, Fin.exists_fin_two, h.answersTo_eq hb,
    h.answersTo_eq hb]
  by_cases h0 : b.owner 0 = o
  · simp [Option.filter_some, h0]
  · simp [Option.filter_some, h0]

/-- Relay bindings follow record ownership.  Take a binding from before it was
allocated on, through any run in which no registration moves one of its devices
to another connection.  In the state reached, an allocation that hands it out
names the owner of the peer's record, and closing a connection takes it down
exactly if one of its sides answers to that connection: its record is owned
there, or is unregistered and was held there. -/
theorem relay_bindings_follow_records (P : Primitives) (cfg : RegistryConfig)
    (secret : SymKey) (before since : List Op) (id : RelayId)
    (hnew : id ∉ (run (step P) { cfg := cfg, secret := secret } before).relays)
    (hhome : AllSteps (fun r op => ¬ Rehomes P r id op) (step P)
      (run (step P) { cfg := cfg, secret := secret } before) since) :
    let r := run (step P) { cfg := cfg, secret := secret } (before ++ since)
    (∀ src peer kind owner addr now draws g r',
      r.relayAlloc src peer kind owner addr now draws = some (g, r') → g.code = .none →
        g.id = id → r.ownerOf peer = some g.peerOwner) ∧
    ∀ b, r.relays.lookup id = some b → ∀ o,
      (id ∉ (r.dropOwner o).2.relays ↔ ∃ side, r.answersTo b side = o) := by
  intro r
  have hstart : (run (step P) { cfg := cfg, secret := secret } before).Homed id := by
    intro b hb
    rw [← AList.lookup_eq_none] at hnew
    rw [hnew] at hb
    cases hb
  have hr : r.Homed id := by
    have := run_invariant_of_allSteps (I := fun r => r.Homed id)
      (fun s op hop hs => hs.step op hop) hstart since hhome
    rwa [← run_append] at this
  refine ⟨?_, fun b hb o => hr.dropOwner hb o⟩
  intro src peer kind owner addr now draws g r' ha hcode hid
  exact Homed.peerOwner ha hcode (by rw [hid]; exact hr)

/-- Two devices of one topic, on connections 1 and 2. -/
def sampleMembers : List Op :=
  [.register { id := Vector.replicate 16 1 } { port := 7 } 1 0,
   .register { id := Vector.replicate 16 1 } { port := 8 } 2 0]

/-- The device id of the member at `port`. -/
def sampleDev (port : Nat) : DevId :=
  deriveDevId Primitives.checksum (Vector.replicate 32 0) (Vector.replicate 16 1)
    { port := port }

/-- The first member asks for a relay to the second. -/
def sampleAlloc : Op :=
  .relayAlloc (sampleDev 7) (sampleDev 8) .tcp 1 { port := 7 } 3
    { ids := [9], token := fun _ => Vector.replicate 16 0 }

theorem relay_bindings_follow_records_sample :
    let r := run (step Primitives.checksum) { secret := Vector.replicate 32 0 }
      (sampleMembers ++ [sampleAlloc])
    (∃ b, r.relays.lookup 9 = some b ∧ r.answersTo b 1 = 2) ∧
      9 ∉ (r.dropOwner 2).2.relays := by
  intro r
  have hfollow := relay_bindings_follow_records Primitives.checksum {} (Vector.replicate 32 0)
    sampleMembers [sampleAlloc] 9 (by decide +kernel) (by decide +kernel)
  obtain ⟨b, hb⟩ : ∃ b, r.relays.lookup 9 = some b :=
    Option.isSome_iff_exists.mp (by decide +kernel)
  have hside : ((r.relays.lookup 9).map fun b => r.answersTo b 1) = some 2 := by
    decide +kernel
  rw [hb, Option.map_some, Option.some.injEq] at hside
  exact ⟨⟨b, hb, hside⟩, (hfollow.2 b hb 2).mpr ⟨1, hside⟩⟩

/-- The registry once the first member has unregistered. -/
def sampleUnregistered : Registry :=
  run (step Primitives.checksum) { secret := Vector.replicate 32 0 }
    (sampleMembers ++ [sampleAlloc, .unregister (sampleDev 7) 1])

/-- After a device unregistered, the close of its connection still takes its
binding down, although that connection owns neither record. -/
theorem relay_binding_outlives_record :
    ¬ ∀ (ops : List Op) (id : RelayId) (b : Relay) (o : ConnKey),
      let r := run (step Primitives.checksum) { secret := Vector.replicate 32 0 } ops
      r.relays.lookup id = some b → id ∉ (r.dropOwner o).2.relays →
        ∃ side, r.ownerOf (b.dev side) = some o := by
  intro h
  obtain ⟨b, hb⟩ : ∃ b, sampleUnregistered.relays.lookup 9 = some b :=
    Option.isSome_iff_exists.mp (by decide +kernel)
  have hgone : 9 ∉ (sampleUnregistered.dropOwner 1).2.relays := by decide +kernel
  obtain ⟨side, hside⟩ := h _ 9 b 1 hb hgone
  have hnone : (sampleUnregistered.relays.lookup 9).all (fun b =>
      decide (∀ side, sampleUnregistered.ownerOf (b.dev side) ≠ some 1)) = true := by
    decide +kernel
  rw [hb, Option.all_some, decide_eq_true_eq] at hnone
  exact hnone side hside

end Registry

end UConnect.Server
