/-
  Server/Recipients.lean --- who the service sends to.

  A frame goes to the sender of a message, to the owner of a record or to a side
  of a binding.  All of these are connections the service has been told of by
  `on_open`: records and bindings get their owners from registrations, and a
  registration is made for the connection it came from.
-/
import UConnect.Server.Authorization
import UConnect.Server.RelayMoves
import UConnect.Server.RelayOwnership

set_option autoImplicit false

namespace UConnect.Server

open UConnect UConnect.Foundation UConnect.Crypto UConnect.Wire

variable {P : Primitives} {K : ConnKey → Prop}

namespace Registry

variable {r r' : Registry}

/-- Every record and every side of a binding belongs to a connection in `K`. -/
structure OwnedBy (K : ConnKey → Prop) (r : Registry) : Prop where
  records : ∀ dev e, r.byDev.lookup dev = some e → K e.owner
  bindings : ∀ id b, r.relays.lookup id = some b → ∀ side, K (b.owner side)

/-- A call that registers, if at all, for a connection in `K`. -/
def Op.For (K : ConnKey → Prop) : Op → Prop
  | .register _ _ owner _ => K owner
  | _ => True

/-- A new binding is between the owners of two records. -/
theorem OwnedBy.made (h : r.OwnedBy K) {op : Op} {id : RelayId} {b : Relay}
    (hmade : .made id b ∈ r.relayMarks op) (side : Fin 2) : K (b.owner side) := by
  cases op with
  | relayAlloc src peer kind owner addr now draws =>
      simp only [relayMarks] at hmade
      cases halloc : r.relayAlloc src peer kind owner addr now draws with
      | none =>
          rw [halloc] at hmade
          exact absurd hmade List.not_mem_nil
      | some x =>
          obtain ⟨g, r'⟩ := x
          rw [halloc] at hmade
          dsimp only at hmade
          split at hmade
          · exact absurd hmade List.not_mem_nil
          rename_i hnew
          obtain ⟨b', hb', hmark⟩ := Option.map_eq_some_iff.mp (Option.mem_toList.mp hmade)
          cases hmark
          rcases relayAlloc_cases halloc with ⟨-, hsame⟩ |
              ⟨f, p, -, hf, hp, howner, ⟨c, _, hc, -⟩ | ⟨c, -, -, -, hboth, hrelays⟩⟩
          · rw [hsame] at hb'
            exact absurd (AList.lookup_isSome.mp (by rw [hb']; rfl)) hnew
          · exact absurd (AList.lookup_isSome.mp (by rw [hc]; rfl)) hnew
          · rw [hrelays, AList.lookup_insert] at hb'
            obtain rfl := Option.some.inj hb'
            rw [hboth]
            have hfirst : K owner := howner ▸ h.records src f hf
            have hsecond : K p.owner := h.records peer p hp
            have hall : ∀ side : Fin 2, K ((![owner, p.owner] : Fin 2 → ConnKey) side) :=
              Fin.forall_fin_two.mpr ⟨hfirst, hsecond⟩
            exact hall side
  | udpForward i src bytes now =>
      simp only [relayMarks, chargeMarks] at hmade
      split at hmade
      · split at hmade
        · split at hmade <;> cases List.mem_singleton.mp hmade
        · exact absurd hmade List.not_mem_nil
      · exact absurd hmade List.not_mem_nil
  | relayCharge i bytes now =>
      simp only [relayMarks, chargeMarks] at hmade
      split at hmade
      · split at hmade <;> cases List.mem_singleton.mp hmade
      · exact absurd hmade List.not_mem_nil
  | udpBind i token src now =>
      simp only [relayMarks] at hmade
      split at hmade
      · obtain ⟨_, -, hmark⟩ := Option.map_eq_some_iff.mp (Option.mem_toList.mp hmade)
        cases hmark
      · exact absurd hmade List.not_mem_nil
  | _ => exact absurd hmade List.not_mem_nil

/-- A move of the bindings keeps their owners; a new one brings its own. -/
theorem owners_relayMove {m : List RelayMark} (hm : RelayMove m r r')
    (h : ∀ id b, r.relays.lookup id = some b → ∀ side, K (b.owner side))
    (hmade : ∀ id b, .made id b ∈ m → ∀ side, K (b.owner side)) :
    ∀ id b, r'.relays.lookup id = some b → ∀ side, K (b.owner side) := by
  have hinsert : ∀ {i : RelayId} {c : Relay}, r'.relays = r.relays.insert i c →
      (∀ side, K (c.owner side)) →
      ∀ id b, r'.relays.lookup id = some b → ∀ side, K (b.owner side) := by
    intro i c heq hc id b hb
    rw [heq] at hb
    by_cases hid : id = i
    · rw [hid, AList.lookup_insert] at hb
      exact Option.some.inj hb ▸ hc
    · rw [AList.lookup_insert_ne hid] at hb
      exact h id b hb
  have hkeep : ∀ {i : RelayId} {b c : Relay}, r.relays.lookup i = some b →
      r'.relays = r.relays.insert i c → c.owner = b.owner →
      ∀ id b, r'.relays.lookup id = some b → ∀ side, K (b.owner side) := by
    intro i b c hb heq howner
    exact hinsert heq (howner ▸ h i b hb)
  cases hm with
  | same hslots =>
      intro id b hb
      rw [(slots_eq hslots).2.1] at hb
      exact h id b hb
  | touch hb hslots => exact hkeep hb (slots_eq hslots).2.1 rfl
  | bind hb _ hslots => exact hkeep hb (slots_eq hslots).2.1 rfl
  | charge hb _ _ hslots => exact hkeep hb (slots_eq hslots).2.1 rfl
  | refuse hb hslots => exact hkeep hb (slots_eq hslots).2.1 rfl
  | make _ _ _ _ _ _ _ _ _ hslots =>
      exact hinsert (slots_eq hslots).2.1 (hmade _ _ (List.mem_singleton.mpr rfl))
  | @release _ i c hb =>
      intro id b hb'
      change (r.relays.erase i).lookup id = some b at hb'
      by_cases hid : id = i
      · rw [hid, AList.lookup_erase] at hb'
        cases hb'
      · rw [AList.lookup_erase_ne hid] at hb'
        exact h id b hb'

theorem owners_relayMoves {ms : List RelayMark} (hm : RelayMoves ms r r')
    (h : ∀ id b, r.relays.lookup id = some b → ∀ side, K (b.owner side))
    (hmade : ∀ id b, .made id b ∈ ms → ∀ side, K (b.owner side)) :
    ∀ id b, r'.relays.lookup id = some b → ∀ side, K (b.owner side) := by
  induction hm with
  | refl => exact h
  | tail _ hmove ih =>
      refine owners_relayMove hmove (ih h fun id b hb => ?_) fun id b hb => ?_
      · exact hmade id b (List.mem_append_left _ hb)
      · exact hmade id b (List.mem_append_right _ hb)

/-- A call for `K` keeps the owners in `K`. -/
theorem OwnedBy.step (h : r.OwnedBy K) {op : Op} (hop : op.For K) :
    (Registry.step P r op).OwnedBy K where
  records := by
    intro dev e he
    have hchange := step_record P r op dev
    rw [he] at hchange
    generalize hx : some e = x at hchange
    cases hchange with
    | same => exact h.records dev e hx.symm
    | written =>
        obtain rfl := Option.some.inj hx
        exact hop
    | @seen e' _ hold =>
        obtain rfl := Option.some.inj hx
        exact h.records dev e' hold
    | @updated e' _ _ hold =>
        obtain rfl := Option.some.inj hx
        exact h.records dev e' hold
    | unregistered => cases hx
    | dropped => cases hx
  bindings := owners_relayMoves (step_relayMoves P r op) h.bindings fun _ _ hb => h.made hb

theorem OwnedBy.charge (h : r.OwnedBy K) (id : RelayId) (bytes : Nat) (now : Instant) :
    (r.relayCharge id bytes now).2.OwnedBy K where
  records := by
    rw [(relayCharge_beside r id bytes now).byDev]
    exact h.records
  bindings := by
    refine owners_relayMoves (relayCharge_moves r id bytes now) h.bindings fun i b hb => ?_
    unfold chargeMarks at hb
    split at hb
    · split at hb <;> cases List.mem_singleton.mp hb
    · exact absurd hb List.not_mem_nil

theorem OwnedBy.run (h : r.OwnedBy K) {ops : List Op} (hops : ∀ op ∈ ops, op.For K) :
    (Foundation.run (Registry.step P) r ops).OwnedBy K := by
  induction ops generalizing r with
  | nil => exact h
  | cons op ops ih =>
      exact ih (h.step (hops op List.mem_cons_self)) fun o ho => hops o (List.mem_cons_of_mem _ ho)

end Registry

namespace ControlService

variable {s s' : ControlService}

/-- Every connection the service may send to is in `K`. -/
structure Knows (K : ConnKey → Prop) (s : ControlService) : Prop where
  conns : ∀ key conn, s.conns.lookup key = some conn → K key
  owned : s.registry.OwnedBy K

theorem Knows.mono {K' : ConnKey → Prop} (h : s.Knows K) (hK : ∀ key, K key → K' key) : s.Knows K' :=
  ⟨fun key conn hconn => hK key (h.conns key conn hconn),
    fun dev e he => hK _ (h.owned.records dev e he),
    fun id b hb side => hK _ (h.owned.bindings id b hb side)⟩

theorem Knows.charge (h : s.Knows K) (id : RelayId) (bytes : Nat) (now : Instant) :
    Knows K { s with registry := (s.registry.relayCharge id bytes now).2 } :=
  ⟨h.conns, h.owned.charge id bytes now⟩

theorem Knows.create (cfg : RegistryConfig) (secret : SymKey) (maxUdpSources : Nat) :
    (create cfg secret maxUdpSources).Knows K := by
  refine ⟨fun key conn hconn => ?_, fun dev e he => ?_, fun id b hb => ?_⟩
  · cases (AList.lookup_empty key).symm.trans hconn
  · cases (AList.lookup_empty dev).symm.trans he
  · cases (AList.lookup_empty id).symm.trans hb

/-- A datagram registers nothing. -/
theorem udpRequest_for {src : Address} {h : Header} {r : Reader} {now : Instant}
    {op : Registry.Op} (hop : udpRequest src h r now = some op) : op.For K := by
  unfold udpRequest at hop
  split at hop
  · cases hop
  split at hop
  · obtain ⟨x, -, rfl⟩ := Option.map_eq_some_iff.mp hop
    trivial
  split at hop
  · obtain ⟨x, -, rfl⟩ := Option.map_eq_some_iff.mp hop
    trivial
  · cases hop

/-- The calls of an event are for the connections the service has. -/
theorem Knows.calls (h : s.Knows K) {e : Event} {op : Registry.Op} (hop : op ∈ s.calls P e) :
    op.For K := by
  cases e with
  | opened key peer => exact absurd hop List.not_mem_nil
  | closed key =>
      rw [List.mem_singleton.mp hop]
      trivial
  | message key msg now admitted draws =>
      obtain ⟨conn, h', r, hconn, -, hreq⟩ := mem_calls_message hop
      rcases request_actsFor hreq with ⟨m, r', -, -, rfl⟩ | hacts
      · exact h.conns key conn hconn
      · cases op with
        | register => exact hacts.elim
        | _ => trivial
  | udp src dgram now admitted =>
      simp only [ControlService.calls] at hop
      split at hop
      · exact absurd hop List.not_mem_nil
      · split at hop
        · exact udpRequest_for (Option.mem_toList.mp hop)
        · exact absurd hop List.not_mem_nil
  | tick now =>
      rw [List.mem_singleton.mp hop]
      trivial
  | charge id bytes now =>
      rw [List.mem_singleton.mp hop]
      trivial
  | stats now =>
      rw [List.mem_singleton.mp hop]
      trivial

/-- A message leaves the service with the connections it had. -/
theorem conns_onMessage {key : ConnKey} {msg : Bytes} {now : Instant} {admitted : Bool}
    {draws : Draws} {res : Result}
    (hm : s.onMessage P key msg now admitted draws = some (res, s')) : s'.conns = s.conns := by
  unfold onMessage at hm
  split at hm
  · cases hm
    rfl
  split at hm
  · cases hm
    rfl
  split at hm
  · cases hm
    rfl
  · rw [dispatch_registry hm]

theorem conns_onUdp (s : ControlService) (src : Address) (dgram : Bytes) (now : Instant)
    (admitted : Bool) : (s.onUdp src dgram now admitted).2.conns = s.conns := by
  unfold onUdp
  split
  · rfl
  dsimp only
  split
  · rfl
  split
  · rfl
  split
  · split <;> rfl
  split
  · split
    · rfl
    · split <;> rfl
  split
  · split
    · rfl
    · split <;> rfl
  · rfl

/-- The service learns of a connection by `on_open` only. -/
theorem Knows.step (h : s.Knows K) {e : Event} (hopened : ∀ key peer, e = .opened key peer → K key) :
    (ControlService.step P s e).Knows K where
  conns := by
    intro key conn hconn
    cases e with
    | opened key' peer =>
        change (s.conns.insert key' _).lookup key = some conn at hconn
        by_cases hkey : key = key'
        · exact hkey ▸ hopened key' peer rfl
        · rw [AList.lookup_insert_ne hkey] at hconn
          exact h.conns key conn hconn
    | closed key' =>
        change (s.conns.erase key').lookup key = some conn at hconn
        by_cases hkey : key = key'
        · rw [hkey, AList.lookup_erase] at hconn
          cases hconn
        · rw [AList.lookup_erase_ne hkey] at hconn
          exact h.conns key conn hconn
    | message key' msg now admitted draws =>
        simp only [ControlService.step] at hconn
        cases hm : s.onMessage P key' msg now admitted draws with
        | none =>
            rw [hm] at hconn
            exact h.conns key conn hconn
        | some x =>
            rw [hm, Option.map_some, Option.getD_some, conns_onMessage hm] at hconn
            exact h.conns key conn hconn
    | udp src dgram now admitted =>
        change (s.onUdp src dgram now admitted).2.conns.lookup key = some conn at hconn
        rw [conns_onUdp] at hconn
        exact h.conns key conn hconn
    | tick now => exact h.conns key conn hconn
    | charge id bytes now => exact h.conns key conn hconn
    | stats now => exact h.conns key conn hconn
  owned := by
    rw [step_registry]
    exact h.owned.run fun op hop => h.calls hop

/-- A reply goes to the sender, an introduction and an offer to the owner of a
record. -/
theorem Knows.recipient (h : s.Knows K) {key : ConnKey} {msg : Bytes} {now : Instant}
    {admitted : Bool} {draws : Draws} {res : Result}
    (hm : s.onMessage P key msg now admitted draws = some (res, s')) {f : Framed}
    (hf : f ∈ res.out) : K f.dst := by
  rcases onMessage_cases hm with ⟨rfl, -⟩ | ⟨conn, hdr, r, hconn, -, -, hd⟩
  · exact absurd hf List.not_mem_nil
  · rcases (dispatch_outcome hd).2.frame_cases hf with
      ⟨type, bs, hsaid, -⟩ | ⟨m, r', target, -, htarget, rfl⟩ | ⟨m, r', g, reg, -, hg, hcode, rfl⟩
    · rw [hsaid.dst_eq]
      exact h.conns key conn hconn
    · obtain ⟨_, t, -, ht, -, -, rfl⟩ := Registry.connectTarget_some htarget
      exact h.owned.records _ t ht
    · rcases Registry.relayAlloc_cases hg with ⟨hbad, -⟩ |
        ⟨f, p, -, -, hp, -, ⟨b, side, hb, -, hpeer, -⟩ | ⟨b, -, hpeer, -⟩⟩
      · exact absurd hcode hbad
      · show K g.peerOwner
        rw [hpeer]
        exact h.owned.bindings _ b hb _
      · show K g.peerOwner
        rw [hpeer]
        exact h.owned.records _ p hp

end ControlService

end UConnect.Server
