/-
  Server/RelayMoves.lean --- what one call of the registry can do to the relay
  bindings.

  The bindings and the count of them for each address are the registry's slots.
  A call leaves them alone, rewrites one binding, adds one, or releases some;
  what every such move keeps, every run keeps.  A move that makes a binding,
  binds a side of it to an address, charges it or refuses to leaves a mark.
-/
import UConnect.Server.RegistryMoves

set_option autoImplicit false

namespace UConnect.Server

open UConnect UConnect.Foundation UConnect.Crypto

namespace Registry

/-! ## Slots

The two containers of the bindings, which most operations do not touch. -/

/-- The bindings, their number for each address, and the limits. -/
def slots (r : Registry) :
    RegistryConfig × (AList fun _ : RelayId => Relay) × (AList fun _ : IpKey => Nat) :=
  (r.cfg, r.relays, r.relaysPerIp)

theorem slots_eq {r : Registry} {cfg : RegistryConfig} {relays : AList fun _ : RelayId => Relay}
    {perIp : AList fun _ : IpKey => Nat} (h : r.slots = (cfg, relays, perIp)) :
    r.cfg = cfg ∧ r.relays = relays ∧ r.relaysPerIp = perIp := by
  simpa only [slots, Prod.mk.injEq] using h

@[simp] theorem slots_forgetFresh (r : Registry) (e : Entry) : (r.forgetFresh e).slots = r.slots := by
  unfold forgetFresh
  split <;> rfl

@[simp] theorem slots_markFresh (r : Registry) (dev : DevId) (now : Instant) :
    (r.markFresh dev now).slots = r.slots := by
  unfold markFresh
  split
  · rfl
  · exact slots_forgetFresh r _

@[simp] theorem slots_expireFresh (r : Registry) (now : Instant) :
    (r.expireFresh now).slots = r.slots := by
  unfold expireFresh
  generalize List.takeWhile _ _ = l
  induction l generalizing r with
  | nil => rfl
  | cons e l ih =>
      rw [List.foldl_cons, ih]
      rfl

@[simp] theorem slots_addRecord (r : Registry) (msg : Register) (dev : DevId) (src : Endpoint)
    (owner : ConnKey) : (r.addRecord msg dev src owner).slots = r.slots := by
  unfold addRecord openTopic
  dsimp only
  split <;> rfl

@[simp] theorem slots_writeRecord (r : Registry) (msg : Register) (dev : DevId) (src : Endpoint)
    (owner : ConnKey) (now : Instant) : (r.writeRecord msg dev src owner now).slots = r.slots := by
  rw [writeRecord_eq]
  dsimp only
  split
  · exact slots_markFresh _ dev now
  · exact slots_markFresh _ dev now

@[simp] theorem slots_registerEntry (P : Primitives) (r : Registry) (msg : Register) (src : Endpoint)
    (owner : ConnKey) (now : Instant) : (r.registerEntry P msg src owner now).2.slots = r.slots := by
  have hstats : ∀ (r : Registry) (st : RegistryStats), { r with stats := st }.slots = r.slots :=
    fun _ _ => rfl
  unfold registerEntry
  dsimp only
  cases r.byDev.lookup (deriveDevId P r.secret msg.id src) with
  | none =>
      simp only [Option.isNone_none, Bool.true_and, if_true]
      split
      · rfl
      · rw [hstats, slots_writeRecord, slots_addRecord]
  | some e =>
      simp only [Option.isNone_some, Bool.false_and, Bool.false_eq_true, if_false]
      rw [hstats, slots_writeRecord]
      split <;> rfl

@[simp] theorem slots_eraseEntry (r : Registry) (dev : DevId) : (r.eraseEntry dev).slots = r.slots := by
  have hleave : ∀ (r : Registry) (e : Entry), (r.leaveTopic dev e).slots = r.slots := by
    intro r e
    unfold leaveTopic
    split
    · rfl
    · dsimp only
      split <;> rfl
  unfold eraseEntry
  split
  · rfl
  · rename_i e _
    exact (hleave _ e).trans (slots_forgetFresh r e)

@[simp] theorem slots_unregister (r : Registry) (dev : DevId) (owner : ConnKey) :
    (r.unregister dev owner).2.slots = r.slots := by
  unfold unregister
  split
  · rfl
  split
  · rfl
  · exact slots_eraseEntry _ dev

theorem slots_foldl_eraseEntry (l : List DevId) (r : Registry) :
    (l.foldl eraseEntry r).slots = r.slots := by
  induction l generalizing r with
  | nil => rfl
  | cons dev l ih => rw [List.foldl_cons, ih, slots_eraseEntry]

/-! ## Moves

The four kinds of change, with the marks they leave. -/

/-- What is remembered of a binding. -/
inductive RelayMark where
  | made (id : RelayId) (b : Relay)
  | bound (id : RelayId) (side : Fin 2) (src : Endpoint)
  | charged (id : RelayId) (bytes : Nat)
  | refused (id : RelayId)

/-- One move of the slots, with the mark it leaves. -/
inductive RelayMove : List RelayMark → Registry → Registry → Prop where
  | same {r r' : Registry} (h : r'.slots = r.slots) : RelayMove [] r r'
  /-- A binding is handed out again. -/
  | touch {r r' : Registry} {id : RelayId} {b : Relay} {now : Instant}
      (hb : r.relays.lookup id = some b)
      (h : r'.slots = (r.cfg, r.relays.insert id { b with lastSeen := now }, r.relaysPerIp)) :
      RelayMove [] r r'
  | bind {r r' : Registry} {id : RelayId} {b : Relay} {side : Fin 2} {src : Endpoint}
      {now : Instant} (hb : r.relays.lookup id = some b) (hkind : b.kind = .udp)
      (h : r'.slots = (r.cfg, r.relays.insert id
        { b with udp := Function.update b.udp side (some src), lastSeen := now }, r.relaysPerIp)) :
      RelayMove [.bound id side src] r r'
  | charge {r r' : Registry} {id : RelayId} {b : Relay} {bytes : Nat} {now : Instant}
      (hb : r.relays.lookup id = some b) (hgood : b.exhausted = false)
      (hroom : (b.bytes + bytes) % 2 ^ 64 ≤ r.cfg.relayMaxBytes)
      (h : r'.slots = (r.cfg, r.relays.insert id
        { b with bytes := (b.bytes + bytes) % 2 ^ 64, lastSeen := now }, r.relaysPerIp)) :
      RelayMove [.charged id bytes] r r'
  | refuse {r r' : Registry} {id : RelayId} {b : Relay} (hb : r.relays.lookup id = some b)
      (h : r'.slots = (r.cfg, r.relays.insert id { b with exhausted := true }, r.relaysPerIp)) :
      RelayMove [.refused id] r r'
  /-- A new binding, past the quotas and for a pair that has none. -/
  | make {r r' : Registry} {id : RelayId} {b : Relay} {src peer : DevId} (hnew : id ∉ r.relays)
      (hid : b.id = id) (hnone : r.findBinding src peer b.kind = none) (hdev : b.dev = ![src, peer])
      (hudp : b.udp = fun _ => none) (hbytes : b.bytes = 0) (hgood : b.exhausted = false)
      (hmax : r.relays.entries.length < r.cfg.maxRelays)
      (hip : ∀ n ∈ r.relaysPerIp.lookup b.countedIp, n < r.cfg.maxRelaysPerIp)
      (h : r'.slots = (r.cfg, r.relays.insert id b, increment r.relaysPerIp b.countedIp)) :
      RelayMove [.made id b] r r'
  | release {r : Registry} {id : RelayId} {b : Relay} (hb : r.relays.lookup id = some b) :
      RelayMove [] r (r.releaseRelay ⟨id, b⟩)

/-- Moves one after the other. -/
inductive RelayMoves : List RelayMark → Registry → Registry → Prop where
  | refl (r : Registry) : RelayMoves [] r r
  | tail {ms m : List RelayMark} {r r' r'' : Registry} (h : RelayMoves ms r r')
      (hmove : RelayMove m r' r'') : RelayMoves (ms ++ m) r r''

section Compose

variable {m ms : List RelayMark} {r r' r'' : Registry}

theorem RelayMoves.single (h : RelayMove m r r') : RelayMoves m r r' := by
  have hone := (RelayMoves.refl r).tail h
  rwa [List.nil_append] at hone

theorem RelayMoves.quiet (h : RelayMoves ms r r') (hmove : RelayMove [] r' r'') :
    RelayMoves ms r r'' := by
  have htail := h.tail hmove
  rwa [List.append_nil] at htail

theorem RelayMoves.trans {ns : List RelayMark} (h : RelayMoves ms r r') (h' : RelayMoves ns r' r'') :
    RelayMoves (ms ++ ns) r r'' := by
  induction h' with
  | refl => rwa [List.append_nil]
  | tail _ hmove ih =>
      rw [← List.append_assoc]
      exact (ih h).tail hmove

/-- What every move keeps, a sequence of them keeps. -/
theorem RelayMoves.keeps {I : List RelayMark → Registry → Prop}
    (hmove : ∀ hist m r r', I hist r → RelayMove m r r' → I (hist ++ m) r')
    {hist : List RelayMark} (h : RelayMoves ms r r') (hr : I hist r) : I (hist ++ ms) r' := by
  induction h with
  | refl => rwa [List.append_nil]
  | tail _ hm ih =>
      rw [← List.append_assoc]
      exact hmove _ _ _ _ (ih hr) hm

/-- Bindings that are there are released one by one. -/
theorem foldl_releaseRelay_moves (l : List (Σ _ : RelayId, Relay)) (hnodup : (l.map Sigma.fst).Nodup)
    (hmem : ∀ it ∈ l, it ∈ r.relays.entries) : RelayMoves [] r (l.foldl releaseRelay r) := by
  suffices h : ∀ r₀, RelayMoves [] r₀ r → RelayMoves [] r₀ (l.foldl releaseRelay r) from h r (.refl r)
  induction l generalizing r with
  | nil => exact fun r₀ h => h
  | cons it l ih =>
      rw [List.map_cons, List.nodup_cons] at hnodup
      intro r₀ h
      have hfirst : RelayMove [] r (r.releaseRelay it) :=
        .release (AList.mem_lookup_iff.mpr (hmem it List.mem_cons_self))
      refine ih hnodup.2 (fun it' hit' => ?_) r₀ (h.quiet hfirst)
      have hne : it'.1 ≠ it.1 := fun heq => hnodup.1 (heq ▸ List.mem_map_of_mem hit')
      have hold : r.relays.lookup it'.1 = some it'.2 :=
        AList.mem_lookup_iff.mpr (hmem it' (List.mem_cons_of_mem _ hit'))
      exact AList.mem_lookup_iff.mp ((AList.lookup_erase_ne hne).trans hold)

theorem releaseWhere_moves (r : Registry) (dead : Relay → Bool) :
    RelayMoves [] r (r.releaseWhere dead) := by
  refine foldl_releaseRelay_moves _ ?_ fun it hit => (List.mem_filter.mp hit).1
  exact (List.filter_sublist.map Sigma.fst).nodup r.relays.nodupKeys

end Compose

/-! ## Every call is a sequence of moves

The decomposition, and the rule for runs that comes of it. -/

/-- Where `udp_forward` would send a datagram: from a bound side to the other,
if that is bound too. -/
def udpRoute (r : Registry) (id : RelayId) (src : Endpoint) : Option Endpoint :=
  (r.relays.lookup id).bind fun b =>
    if b.kind ≠ .udp then none
    else if (b.udp 0).any (·.same src) then b.udp 1
    else if (b.udp 1).any (·.same src) then b.udp 0
    else none

/-- The marks a charge leaves. -/
def chargeMarks (r : Registry) (id : RelayId) (bytes : Nat) (now : Instant) : List RelayMark :=
  if id ∈ r.relays then
    if (r.relayCharge id bytes now).1 then [.charged id bytes] else [.refused id]
  else []

/-- The marks a call leaves on the bindings. -/
def relayMarks (r : Registry) : Op → List RelayMark
  | .relayAlloc src peer kind owner addr now draws =>
      match r.relayAlloc src peer kind owner addr now draws with
      | some (g, r') =>
          if g.id ∈ r.relays then [] else ((r'.relays.lookup g.id).map (.made g.id)).toList
      | none => []
  | .relayCharge id bytes now => r.chargeMarks id bytes now
  | .udpBind id token src now =>
      if (r.udpBind id token src now).1 then
        ((r.relaySide id token).map (.bound id · src)).toList
      else []
  | .udpForward id src bytes now =>
      if (r.udpRoute id src).isSome then r.chargeMarks id bytes now else []
  | _ => []

section Steps

variable {P : Primitives} {r : Registry}

theorem udpForward_eq (r : Registry) (id : RelayId) (src : Endpoint) (bytes : Nat) (now : Instant) :
    r.udpForward id src bytes now =
      match r.udpRoute id src with
      | none => (none, r)
      | some dst =>
          (if (r.relayCharge id bytes now).1 then some dst else none,
            (r.relayCharge id bytes now).2) := by
  unfold udpForward udpRoute
  cases hb : r.relays.lookup id with
  | none => rfl
  | some b =>
      simp only [Option.bind_some]
      split
      · rfl
      · cases h0 : (b.udp 0).any (·.same src) with
        | true =>
            cases hdst : b.udp 1 with
            | none => simp only [if_true, show (1 : Fin 2) - 0 = 1 from rfl, hdst]
            | some dst => simp only [if_true, show (1 : Fin 2) - 0 = 1 from rfl, hdst]
        | false =>
            cases h1 : (b.udp 1).any (·.same src) with
            | true =>
                cases hdst : b.udp 0 with
                | none =>
                    simp only [Bool.false_eq_true, if_false, if_true,
                      show (1 : Fin 2) - 1 = 0 from rfl, hdst]
                | some dst =>
                    simp only [Bool.false_eq_true, if_false, if_true,
                      show (1 : Fin 2) - 1 = 0 from rfl, hdst]
            | false => rfl

theorem relayCharge_moves (r : Registry) (id : RelayId) (bytes : Nat) (now : Instant) :
    RelayMoves (r.chargeMarks id bytes now) r (r.relayCharge id bytes now).2 := by
  unfold chargeMarks relayCharge
  cases hb : r.relays.lookup id with
  | none =>
      rw [if_neg (AList.lookup_eq_none.mp hb)]
      exact .refl r
  | some b =>
      have hin : id ∈ r.relays := by
        rw [← AList.lookup_isSome, hb]
        rfl
      rw [if_pos hin]
      dsimp only
      split
      · exact RelayMoves.single (.refuse hb rfl)
      · rename_i hroom
        simp only [Bool.or_eq_true, decide_eq_true_eq, not_or, Nat.not_lt, Bool.not_eq_true] at hroom
        exact RelayMoves.single (.charge hb hroom.1 hroom.2 rfl)

/-- What an allocation does to the slots. -/
theorem relayAlloc_move {src peer : DevId} {kind : RelayKind} {owner : ConnKey} {addr : Endpoint}
    {now : Instant} {draws : RelayDraws} {g : RelayGrant} {r' : Registry}
    (h : r.relayAlloc src peer kind owner addr now draws = some (g, r')) :
    RelayMove (r.relayMarks (.relayAlloc src peer kind owner addr now draws)) r r' := by
  have hmarks : r.relayMarks (.relayAlloc src peer kind owner addr now draws) =
      if g.id ∈ r.relays then [] else ((r'.relays.lookup g.id).map (.made g.id)).toList := by
    simp only [relayMarks, h]
  -- an answer that leaves the bindings as they are leaves no mark
  have hsame : r'.slots = r.slots →
      RelayMove (r.relayMarks (.relayAlloc src peer kind owner addr now draws)) r r' := by
    intro hslots
    have hrel : r'.relays = r.relays := congrArg (fun x => x.2.1) hslots
    have hnil : (if g.id ∈ r.relays then []
        else ((r'.relays.lookup g.id).map (RelayMark.made g.id)).toList) = [] := by
      split
      · rfl
      · rename_i hnew
        rw [hrel, AList.lookup_eq_none.mpr hnew]
        rfl
    rw [hmarks, hnil]
    exact .same hslots
  cases allocation h with
  | barred => exact hsame rfl
  | full => exact hsame rfl
  | @found _ _ id _ _ _ _ _ _ hfind =>
      obtain ⟨hb, -⟩ := findBinding_some hfind
      have hin : id ∈ r.relays := by
        rw [← AList.lookup_isSome, hb]
        rfl
      rw [hmarks, if_pos hin]
      exact .touch hb rfl
  | made _ _ _ _ hnone hmax hip _ _ hnew =>
      rw [hmarks, if_neg hnew, AList.lookup_insert]
      apply RelayMove.make
      · exact hnew
      · rfl
      · exact hnone
      · rfl
      · rfl
      · rfl
      · rfl
      · exact hmax
      · exact hip
      · rfl

/-- A call is a sequence of moves of the slots. -/
theorem step_relayMoves (P : Primitives) (r : Registry) (op : Op) :
    RelayMoves (r.relayMarks op) r (step P r op) := by
  have hsame : ∀ {r' : Registry}, r'.slots = r.slots → RelayMoves [] r r' :=
    fun h => RelayMoves.single (.same h)
  cases op with
  | register msg src owner now => exact hsame (slots_registerEntry P r msg src owner now)
  | refresh dev owner now =>
      refine hsame ?_
      show (r.refresh dev owner now).2.slots = r.slots
      unfold refresh
      split
      · rfl
      split
      · rfl
      · exact slots_markFresh r dev now
  | update msg owner now =>
      refine hsame ?_
      show (r.update msg owner now).2.slots = r.slots
      unfold update
      split
      · rfl
      split
      · rfl
      · exact slots_markFresh _ msg.devId now
  | unregister dev owner => exact hsame (slots_unregister r dev owner)
  | dropOwner owner =>
      show RelayMoves [] r (r.dropOwner owner).2
      unfold dropOwner
      dsimp only
      generalize hr' : (r.owned owner).foldl eraseEntry r = r'
      have hslots : { r' with byOwner := r'.byOwner.erase owner }.slots = r.slots := by
        rw [← slots_foldl_eraseEntry (r.owned owner) r, hr']
        rfl
      exact ((hsame hslots).trans (releaseWhere_moves _ _)).quiet (.same rfl)
  | lookup t max wantMeta now s =>
      refine hsame ?_
      show (r.lookup t max wantMeta now s).2.slots = r.slots
      unfold lookup
      dsimp only
      split <;> rfl
  | resolve dev now => exact .refl r
  | listTopics cursor limit now => exact hsame (slots_expireFresh r now)
  | connectTarget src dst owner =>
      refine hsame ?_
      show (r.connectTarget src dst owner).2.slots = r.slots
      unfold connectTarget
      split
      · split
        · rfl
        split <;> rfl
      · rfl
  | relayAlloc src peer kind owner addr now draws =>
      show RelayMoves (r.relayMarks (.relayAlloc src peer kind owner addr now draws)) r
        (((r.relayAlloc src peer kind owner addr now draws).map (·.2)).getD r)
      cases hr : r.relayAlloc src peer kind owner addr now draws with
      | none =>
          simp only [relayMarks, hr]
          exact .refl r
      | some p => exact RelayMoves.single (relayAlloc_move hr)
  | relayCharge id bytes now => exact relayCharge_moves r id bytes now
  | udpBind id token src now =>
      show RelayMoves (if (r.udpBind id token src now).1 then
          ((r.relaySide id token).map (RelayMark.bound id · src)).toList else []) r
        (r.udpBind id token src now).2
      unfold udpBind
      cases hb : r.relays.lookup id with
      | none => exact .refl r
      | some b =>
          dsimp only
          split
          · exact .refl r
          · rename_i hkind
            cases hside : r.relaySide id token with
            | none => exact .refl r
            | some side => exact RelayMoves.single (.bind hb (not_not.mp hkind) rfl)
  | udpForward id src bytes now =>
      show RelayMoves (if (r.udpRoute id src).isSome then r.chargeMarks id bytes now else []) r
        (r.udpForward id src bytes now).2
      rw [udpForward_eq]
      cases r.udpRoute id src with
      | none => exact .refl r
      | some dst => exact relayCharge_moves r id bytes now
  | relayClose id =>
      show RelayMoves [] r (r.relayClose id)
      unfold relayClose
      split
      · exact .refl r
      · rename_i b hb
        exact RelayMoves.single (.release hb)
  | sweep now =>
      show RelayMoves [] r
        ((r.expireFresh now).releaseWhere fun b => now - b.lastSeen ≥ r.cfg.relayExpiry)
      exact (hsame (slots_expireFresh r now)).trans (releaseWhere_moves _ _)
  | stats now => exact hsame (slots_expireFresh r now)

/-- The marks of a run on the bindings. -/
def relayHistory (P : Primitives) (r : Registry) (ops : List Op) : List RelayMark :=
  trace relayMarks (step P) r ops

/-- What every move of the slots keeps, every run keeps. -/
theorem relay_keeps_run {I : List RelayMark → Registry → Prop}
    (hmove : ∀ hist m r r', I hist r → RelayMove m r r' → I (hist ++ m) r')
    {hist : List RelayMark} (hr : I hist r) (ops : List Op) :
    I (hist ++ relayHistory P r ops) (run (step P) r ops) := by
  induction ops generalizing r hist with
  | nil =>
      rw [show relayHistory P r [] = [] from rfl, List.append_nil]
      exact hr
  | cons op ops ih =>
      have hrest := ih ((step_relayMoves P r op).keeps hmove hr)
      rwa [List.append_assoc] at hrest

/-- What holds of an empty registry and is kept by every move of the slots holds
in every state a run reaches. -/
theorem relay_keeps_reachable {I : List RelayMark → Registry → Prop} {cfg : RegistryConfig}
    {secret : SymKey} (hinit : I [] { cfg := cfg, secret := secret })
    (hmove : ∀ hist m r r', I hist r → RelayMove m r r' → I (hist ++ m) r') (ops : List Op) :
    I (relayHistory P { cfg := cfg, secret := secret } ops)
      (run (step P) { cfg := cfg, secret := secret } ops) := by
  have hkeep := relay_keeps_run (P := P) hmove hinit ops
  rwa [List.nil_append] at hkeep

end Steps

end Registry

end UConnect.Server
