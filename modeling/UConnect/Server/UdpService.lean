/-
  Server/UdpService.lean --- the server amplifies nothing and forwards for
  nobody but the pair.

  Source: server/control_service.cpp, `on_udp`, and server/registry.cpp,
  `relay_side`, `udp_bind` and `udp_forward`.

  What a datagram is answered with is one of four things (`UdpOutcome`):
  nothing, the sender's address, the receipt for a bind, or a datagram passed
  on.  None is longer than what arrived.  Where a datagram is passed on to is
  what the history of binds says: of the accepted binds, the last one with the
  token of a side is the address of that side.
-/
import UConnect.Server.RelayMoves
import UConnect.Server.ServiceRuns
import UConnect.Wire.Sizes

set_option autoImplicit false

namespace UConnect

open UConnect.Foundation UConnect.Crypto UConnect.Wire

/-! ## Addresses in normal form

On these `operator==` is equality. -/

/-- Addresses in normal form that compare equal are equal. -/
theorem Endpoint.eq_of_same {a b : Endpoint} (ha : a.normal = a) (hb : b.normal = b)
    (h : a.same b = true) : a = b := by
  obtain ⟨hport, hip⟩ := Bool.and_eq_true_iff.mp h
  obtain ⟨hfamily, hbytes⟩ := Bool.and_eq_true_iff.mp hip
  have hfamily := beq_iff_eq.mp hfamily
  have hbytes := beq_iff_eq.mp hbytes
  have hlen : b.ip.addrLen = a.ip.addrLen := by
    unfold IpAddr.addrLen
    rw [hfamily]
  have hcopy : a.ip.bytes = b.ip.bytes := by
    have hna : copyInto 16 (a.ip.bytes.toList.take a.ip.addrLen) = a.ip.bytes :=
      congrArg (fun ep : Endpoint => ep.ip.bytes) ha
    have hnb : copyInto 16 (b.ip.bytes.toList.take b.ip.addrLen) = b.ip.bytes :=
      congrArg (fun ep : Endpoint => ep.ip.bytes) hb
    rw [← hna, ← hnb, hlen, hbytes]
  obtain ⟨⟨fa, ba⟩, pa⟩ := a
  obtain ⟨⟨fb, bb⟩, pb⟩ := b
  dsimp only at hport hfamily hcopy
  rw [beq_iff_eq.mp hport, hfamily, hcopy]

namespace Server

/-! ## What binds leave behind

The address of a side is that of the last accepted bind with its token. -/

/-- An accepted bind. -/
structure Bind where
  id : RelayId
  token : RelayToken
  src : Endpoint
  deriving DecidableEq

/-- The address the last bind with this id and token came from. -/
def lastBound (log : List Bind) (id : RelayId) (token : RelayToken) : Option Endpoint :=
  (log.filter fun x => x.id = id ∧ x.token = token).getLast?.map Bind.src

theorem lastBound_concat (log : List Bind) (x : Bind) (id : RelayId) (token : RelayToken) :
    lastBound (log ++ [x]) id token =
      if x.id = id ∧ x.token = token then some x.src else lastBound log id token := by
  unfold lastBound
  rw [List.filter_append]
  split
  · rename_i heq
    have hone : [x].filter (fun x => decide (x.id = id ∧ x.token = token)) = [x] :=
      List.filter_eq_self.mpr fun y hy => by rw [List.mem_singleton.mp hy, decide_eq_true heq]
    rw [hone, List.getLast?_concat, Option.map_some]
  · rename_i hne
    have hnone : [x].filter (fun x => decide (x.id = id ∧ x.token = token)) = [] :=
      List.filter_eq_nil_iff.mpr fun y hy => by
        rw [List.mem_singleton.mp hy, decide_eq_true_eq]
        exact hne
    rw [hnone, List.append_nil]

namespace Registry

/-- The tokens of a binding differ, and a side that is bound is bound to the
address the last bind with its token came from. -/
def Bound (log : List Bind) (r : Registry) : Prop :=
  ∀ id b, r.relays.lookup id = some b → b.token 0 ≠ b.token 1 ∧
    ∀ side a, b.udp side = some a → a.normal = a ∧ lastBound log id (b.token side) = some a

/-- A call whose bindings have two tokens, and whose address is in normal form. -/
def Careful : Op → Prop
  | .relayAlloc _ _ _ _ _ _ draws => draws.token 0 ≠ draws.token 1
  | .udpBind _ _ src _ => src.normal = src
  | _ => True

/-- A mark that changes no address. -/
def Unbinding : RelayMark → Prop
  | .made _ b => b.token 0 ≠ b.token 1
  | .bound _ _ _ => False
  | _ => True

section Bound

variable {P : Primitives} {log : List Bind} {r r' : Registry}

/-- One binding is written over with its tokens and addresses. -/
theorem Bound.rewrite (h : r.Bound log) {id : RelayId} {b b' : Relay}
    (hb : r.relays.lookup id = some b) (hrelays : r'.relays = r.relays.insert id b')
    (htoken : b'.token = b.token) (hudp : b'.udp = b.udp) : r'.Bound log := by
  intro id₁ b₁ hb₁
  rw [hrelays, lookup_insert_ite] at hb₁
  split at hb₁
  · rename_i heq
    cases hb₁
    rw [htoken, hudp, heq]
    exact h id b hb
  · exact h id₁ b₁ hb₁

theorem Bound.move {m : List RelayMark} (h : r.Bound log) (hm : RelayMove m r r')
    (hquiet : ∀ x ∈ m, Unbinding x) : r'.Bound log := by
  cases hm with
  | same hslots =>
      obtain ⟨-, hrelays, -⟩ := slots_eq hslots
      intro id b hb
      rw [hrelays] at hb
      exact h id b hb
  | touch hb hslots => exact h.rewrite hb (slots_eq hslots).2.1 rfl rfl
  | bind hb _ hslots => exact (hquiet _ (List.mem_singleton_self _)).elim
  | charge hb _ _ hslots => exact h.rewrite hb (slots_eq hslots).2.1 rfl rfl
  | refuse hb hslots => exact h.rewrite hb (slots_eq hslots).2.1 rfl rfl
  | make hnew _ _ _ hudp _ _ _ _ hslots =>
      obtain ⟨-, hrelays, -⟩ := slots_eq hslots
      intro id₁ b₁ hb₁
      rw [hrelays, lookup_insert_ite] at hb₁
      split at hb₁
      · cases hb₁
        refine ⟨hquiet _ (List.mem_singleton_self _), fun side a ha => ?_⟩
        rw [hudp] at ha
        cases ha
      · exact h id₁ b₁ hb₁
  | release hb =>
      intro id₁ b₁ hb₁
      have hb₁ : (r.relays.erase _).lookup id₁ = some b₁ := hb₁
      rw [lookup_erase_ite] at hb₁
      split at hb₁
      · cases hb₁
      · exact h id₁ b₁ hb₁

theorem Bound.moves {ms : List RelayMark} (h : r.Bound log) (hm : RelayMoves ms r r')
    (hquiet : ∀ x ∈ ms, Unbinding x) : r'.Bound log := by
  induction hm with
  | refl => exact h
  | tail _ hmove ih =>
      exact (ih h fun x hx => hquiet x (List.mem_append_left _ hx)).move hmove
        fun x hx => hquiet x (List.mem_append_right _ hx)

/-- The accepted binds of a call. -/
def binds (r : Registry) : Op → List Bind
  | .udpBind id token src now => if (r.udpBind id token src now).1 then [⟨id, token, src⟩] else []
  | _ => []

/-- A side found by a token has that token. -/
theorem relaySide_token {id : RelayId} {token : RelayToken} {b : Relay} {side : Fin 2}
    (hb : r.relays.lookup id = some b) (hside : r.relaySide id token = some side) :
    b.token side = token := by
  unfold relaySide at hside
  rw [hb] at hside
  simp only [Option.any_none, Bool.false_eq_true, if_false] at hside
  split at hside
  · rename_i htoken
    cases hside
    exact htoken
  split at hside
  · rename_i htoken
    cases hside
    exact htoken
  · cases hside

/-- A bind is refused, or it puts the address at the side of its token. -/
theorem udpBind_cases (r : Registry) (id : RelayId) (token : RelayToken) (src : Endpoint)
    (now : Instant) :
    r.udpBind id token src now = (false, r) ∨
      ∃ b side, r.relays.lookup id = some b ∧ b.kind = .udp ∧ b.token side = token ∧
        r.udpBind id token src now = (true, { r with
          relays := r.relays.insert id
            { b with udp := Function.update b.udp side (some src), lastSeen := now } }) := by
  unfold Registry.udpBind
  cases hb : r.relays.lookup id with
  | none => exact .inl rfl
  | some b =>
      dsimp only
      split
      · exact .inl rfl
      · rename_i hkind
        cases hside : r.relaySide id token with
        | none => exact .inl rfl
        | some side =>
            exact .inr ⟨b, side, rfl, not_not.mp hkind, relaySide_token hb hside, rfl⟩

/-- With two tokens, only one side has this one. -/
theorem eq_of_token {b : Relay} (h : b.token 0 ≠ b.token 1) {side side' : Fin 2}
    (heq : b.token side = b.token side') : side = side' := by
  match side, side' with
  | 0, 0 => rfl
  | 0, 1 => exact absurd heq h
  | 1, 0 => exact absurd heq.symm h
  | 1, 1 => rfl

theorem Bound.udpBind (h : r.Bound log) {id : RelayId} {token : RelayToken} {src : Endpoint}
    {now : Instant} (hsrc : src.normal = src) :
    (r.udpBind id token src now).2.Bound (log ++ r.binds (.udpBind id token src now)) := by
  rcases r.udpBind_cases id token src now with heq | ⟨b, side, hb, -, htoken, heq⟩
  · rw [binds, heq, if_neg Bool.false_ne_true, List.append_nil]
    exact h
  rw [binds, heq, if_pos rfl]
  intro id₁ b₁ hb₁
  dsimp only at hb₁
  rw [lookup_insert_ite] at hb₁
  split at hb₁
  · rename_i hid
    cases hb₁
    obtain ⟨hdiffer, hbound⟩ := h id b hb
    refine ⟨hdiffer, fun side' a ha => ?_⟩
    dsimp only at ha ⊢
    rw [Function.update_apply] at ha
    rw [lastBound_concat]
    split at ha
    · rename_i hsame
      cases ha
      rw [if_pos ⟨hid.symm, by rw [hsame, htoken]⟩]
      exact ⟨hsrc, rfl⟩
    · rename_i hother
      have hne : ¬ (id = id₁ ∧ token = b.token side') := by
        rintro ⟨-, hmatch⟩
        exact hother (eq_of_token hdiffer (hmatch.symm.trans htoken.symm))
      rw [if_neg hne, hid]
      exact hbound side' a ha
  · rename_i hne
    obtain ⟨hdiffer, hbound⟩ := h id₁ b₁ hb₁
    refine ⟨hdiffer, fun side' a ha => ?_⟩
    rw [lastBound_concat, if_neg fun hmatch => hne hmatch.1.symm]
    exact hbound side' a ha

/-- A call keeps the addresses where the binds put them. -/
theorem Bound.step (h : r.Bound log) {op : Op} (hop : Careful op) :
    (Registry.step P r op).Bound (log ++ r.binds op) := by
  have hquiet : r.binds op = [] → (∀ x ∈ r.relayMarks op, Unbinding x) →
      (Registry.step P r op).Bound (log ++ r.binds op) := by
    intro hnil hmarks
    rw [hnil, List.append_nil]
    exact h.moves (step_relayMoves P r op) hmarks
  have hcharge : ∀ id bytes now, ∀ x ∈ r.chargeMarks id bytes now, Unbinding x := by
    intro id bytes now x hx
    unfold chargeMarks at hx
    split at hx
    · split at hx
      · rw [List.mem_singleton.mp hx]
        trivial
      · rw [List.mem_singleton.mp hx]
        trivial
    · cases hx
  have hnone : ∀ x ∈ ([] : List RelayMark), Unbinding x := fun x hx => absurd hx List.not_mem_nil
  cases op with
  | udpBind id token src now => exact h.udpBind hop
  | relayAlloc src peer kind owner addr now draws =>
      refine hquiet rfl fun x hx => ?_
      simp only [relayMarks] at hx
      cases hg : r.relayAlloc src peer kind owner addr now draws with
      | none =>
          rw [hg] at hx
          cases hx
      | some p =>
          obtain ⟨g, r'⟩ := p
          rw [hg] at hx
          dsimp only at hx
          split at hx
          · cases hx
          · rename_i hnew
            obtain ⟨b, hb, rfl⟩ := Option.map_eq_some_iff.mp (Option.mem_toList.mp hx)
            have habsent : r.relays.lookup g.id = none := AList.lookup_eq_none.mpr hnew
            cases allocation hg with
            | barred => cases habsent.symm.trans hb
            | full => cases habsent.symm.trans hb
            | found _ _ _ _ hfind => cases habsent.symm.trans (findBinding_some hfind).1
            | made =>
                rw [AList.lookup_insert] at hb
                cases hb
                exact hop
  | relayCharge id bytes now => exact hquiet rfl (hcharge id bytes now)
  | udpForward id src bytes now =>
      refine hquiet rfl fun x hx => ?_
      simp only [relayMarks] at hx
      split at hx
      · exact hcharge id bytes now x hx
      · cases hx
  | register msg src owner now => exact hquiet rfl hnone
  | refresh dev owner now => exact hquiet rfl hnone
  | update msg owner now => exact hquiet rfl hnone
  | unregister dev owner => exact hquiet rfl hnone
  | dropOwner owner => exact hquiet rfl hnone
  | lookup t max wantMeta now s => exact hquiet rfl hnone
  | resolve dev now => exact hquiet rfl hnone
  | listTopics cursor limit now => exact hquiet rfl hnone
  | connectTarget src dst owner => exact hquiet rfl hnone
  | relayClose id => exact hquiet rfl hnone
  | sweep now => exact hquiet rfl hnone
  | stats now => exact hquiet rfl hnone

theorem Bound.run (h : r.Bound log) {ops : List Op} (hops : ∀ op ∈ ops, Careful op) :
    (Foundation.run (Registry.step P) r ops).Bound
      (log ++ trace binds (Registry.step P) r ops) := by
  induction ops generalizing r log with
  | nil => rwa [show trace binds (Registry.step P) r [] = [] from rfl, List.append_nil]
  | cons op ops ih =>
      have hrest := ih (h.step (P := P) (hops op List.mem_cons_self))
        fun o ho => hops o (List.mem_cons_of_mem _ ho)
      rwa [List.append_assoc] at hrest

/-- Where a datagram is routed, it came from one side and goes to the other. -/
theorem udpRoute_some {id : RelayId} {src dst : Endpoint} (h : r.udpRoute id src = some dst) :
    ∃ b side a, r.relays.lookup id = some b ∧ b.kind = .udp ∧ b.udp side = some a ∧
      a.same src = true ∧ b.udp (1 - side) = some dst := by
  unfold udpRoute at h
  obtain ⟨b, hb, h⟩ := Option.bind_eq_some_iff.mp h
  split at h
  · cases h
  rename_i hkind
  split at h
  · rename_i hfrom
    obtain ⟨a, ha, hsame⟩ := (Option.any_eq_true _ _).mp hfrom
    exact ⟨b, 0, a, hb, not_not.mp hkind, ha, hsame, h⟩
  split at h
  · rename_i hfrom
    obtain ⟨a, ha, hsame⟩ := (Option.any_eq_true _ _).mp hfrom
    exact ⟨b, 1, a, hb, not_not.mp hkind, ha, hsame, h⟩
  · cases h

/-- A forward that succeeds is charged. -/
theorem udpForward_some {id : RelayId} {src dst : Endpoint} {bytes : Nat} {now : Instant}
    (h : (r.udpForward id src bytes now).1 = some dst) :
    ∃ b side a, r.relays.lookup id = some b ∧ b.kind = .udp ∧ b.udp side = some a ∧
      a.same src = true ∧ b.udp (1 - side) = some dst ∧ b.exhausted = false ∧
      (b.bytes + bytes) % 2 ^ 64 ≤ r.cfg.relayMaxBytes ∧
      (r.udpForward id src bytes now).2.relays.lookup id =
        some { b with bytes := (b.bytes + bytes) % 2 ^ 64, lastSeen := now } := by
  rw [udpForward_eq] at h ⊢
  cases hroute : r.udpRoute id src with
  | none =>
      rw [hroute] at h
      cases h
  | some dst' =>
      rw [hroute] at h
      dsimp only at h ⊢
      obtain ⟨b, side, a, hb, hkind, ha, hsame, hdst⟩ := udpRoute_some hroute
      unfold relayCharge at h ⊢
      rw [hb] at h ⊢
      dsimp only at h ⊢
      split at h
      · cases h
      · rename_i hroom
        rw [if_pos rfl] at h
        cases h
        simp only [Bool.or_eq_true, decide_eq_true_eq, not_or, Nat.not_lt,
          Bool.not_eq_true] at hroom
        refine ⟨b, side, a, rfl, hkind, ha, hsame, hdst, hroom.1, hroom.2, ?_⟩
        rw [if_neg (by simpa using hroom), AList.lookup_insert]

end Bound

end Registry

/-! ## Reading a datagram

A datagram the server sends is a message, whose type and body can be read back. -/

/-- The datagram is a message of this type. -/
def UdpOut.HasType (o : UdpOut) (type : MsgType) : Prop :=
  ∃ h r, Header.decode { rest := o.data } ctlVersion = (some h, r) ∧ h.type = type

/-- The datagram is a message of this type, and `d` reads its body, to the end,
as `v`. -/
def UdpOut.Carries {α : Type} (o : UdpOut) (type : MsgType) (d : Decoder α) (v : α) : Prop :=
  ∃ h r, Header.decode { rest := o.data } ctlVersion = (some h, r) ∧ h.type = type ∧
    d.run r = some (v, { rest := [] })

/-- A message that fits, read from its front. -/
theorem decode_message (type : MsgType) (txn : Nat) {body : Writer → Writer} {bs : Bytes}
    (hbody : ∀ w, Wrote w (body w) bs) (hlen : bs.length ≤ 2000)
    (hknown : classify type ≠ .unknown) (htxn : txn < 2 ^ 32) :
    (message type txn body).length = 8 + bs.length ∧
      Header.decode { rest := message type txn body } ctlVersion =
        (some { type := type, version := ctlVersion, txnId := txn }, { rest := bs }) := by
  have hk : kMaxFrame = 32768 := by decide
  have hsize : Header.kSize = 8 := rfl
  rw [message_eq type txn 0 hbody, if_pos (by omega)]
  refine ⟨?_, Header.decode_image rfl hknown htxn bs⟩
  rw [List.length_append, Header.length_image, hsize]

namespace ControlService

/-! ## What a datagram comes to

The four outcomes, one lemma for all of them. -/

/-- What is sent on a datagram, and the registry after it. -/
inductive UdpOutcome (s : ControlService) (src : Address) (dgram : Bytes) (now : Instant) :
    List UdpOut → Registry → Prop where
  | silent {reg : Registry} : UdpOutcome s src dgram now [] reg
  | told {h : Header} {r r' : Reader} {m : WhoAmI}
      (hh : Header.decode { rest := dgram } ctlVersion = (some h, r))
      (hm : WhoAmI.decode.run r = some (m, r'))
      (hle : (message .whoAmIOk h.txnId
        (WhoAmIOk.encode { nonce := m.nonce, mapped := src })).length ≤ dgram.length) :
      UdpOutcome s src dgram now
        [{ dst := src
           data := message .whoAmIOk h.txnId
            (WhoAmIOk.encode { nonce := m.nonce, mapped := src }) }] s.registry
  | bound {h : Header} {r r' : Reader} {m : UdpRelayBind}
      (hh : Header.decode { rest := dgram } ctlVersion = (some h, r))
      (htype : h.type = .udpRelayBind) (hm : UdpRelayBind.decode.run r = some (m, r'))
      (hok : (s.registry.udpBind m.relayId m.token src now).1 = true) :
      UdpOutcome s src dgram now
        [{ dst := src
           data := message .udpRelayBindOk h.txnId
            (UdpRelayBindOk.encode { relayId := m.relayId }) }]
        (s.registry.udpBind m.relayId m.token src now).2
  | forwarded {h : Header} {r r' : Reader} {m : RelayData} {dst : Endpoint}
      (hh : Header.decode { rest := dgram } ctlVersion = (some h, r))
      (htype : h.type = .relayData) (hm : RelayData.decode.run r = some (m, r'))
      (hdst : (s.registry.udpForward m.relayId src m.payload.length now).1 = some dst) :
      UdpOutcome s src dgram now [{ dst := dst, data := message .relayData 0 m.encode }]
        (s.registry.udpForward m.relayId src m.payload.length now).2

theorem onUdp_outcome (s : ControlService) (src : Address) (dgram : Bytes) (now : Instant)
    (admitted : Bool) :
    s.UdpOutcome src dgram now (s.onUdp src dgram now admitted).1
      (s.onUdp src dgram now admitted).2.registry := by
  unfold onUdp
  split
  · exact .silent
  dsimp only
  split
  · exact .silent
  rcases hh : Header.decode { rest := dgram } ctlVersion with ⟨- | h, r⟩
  · exact .silent
  dsimp only
  split
  · cases hm : WhoAmI.decode.run r with
    | none => exact .silent
    | some x =>
        dsimp only
        split
        · rename_i hle
          exact .told hh hm hle
        · exact .silent
  split
  · rename_i htype
    cases hm : UdpRelayBind.decode.run r with
    | none => exact .silent
    | some x =>
        dsimp only
        split
        · exact .silent
        · rename_i hok
          exact .bound hh htype hm (by simpa using hok)
  split
  · rename_i htype
    cases hm : RelayData.decode.run r with
    | none => exact .silent
    | some x =>
        dsimp only
        split
        · exact .silent
        · rename_i hdst
          exact .forwarded hh htype hm hdst
  · exact .silent

/-! ## The history of binds

The binds of a run of the service, from the datagrams it was given. -/

/-- The bind an event makes, if it is accepted: a UdpRelayBind that is answered. -/
def binds (s : ControlService) : Event → List Bind
  | .udp src dgram now admitted =>
      match Header.decode { rest := dgram } ctlVersion with
      | (some h, r) =>
          if h.type = .udpRelayBind ∧ (s.onUdp src dgram now admitted).1 ≠ [] then
            ((UdpRelayBind.decode.run r).map fun x => ⟨x.1.relayId, x.1.token, src⟩).toList
          else []
      | (none, _) => []
  | _ => []

/-- The tokens a message would give a new binding differ. -/
def TokensDiffer : Event → Prop
  | .message _ _ _ _ draws => draws.relay.token 0 ≠ draws.relay.token 1
  | _ => True

section Runs

variable {P : Primitives} {s : ControlService}

/-- Calls that bind nothing. -/
theorem trace_binds_nil {ops : List Registry.Op} (h : ∀ op ∈ ops, ∀ r : Registry, r.binds op = [])
    (r : Registry) : trace Registry.binds (Registry.step P) r ops = [] := by
  induction ops generalizing r with
  | nil => rfl
  | cons op ops ih =>
      show r.binds op ++ trace Registry.binds (Registry.step P) (Registry.step P r op) ops = []
      rw [h op List.mem_cons_self, ih fun o ho => h o (List.mem_cons_of_mem _ ho)]
      rfl

theorem request_binds {key : ConnKey} {conn : Conn} {h : Header} {r : Reader} {now : Instant}
    {draws : Draws} {op : Registry.Op} (hop : request key conn h r now draws = some op) :
    (∀ reg : Registry, reg.binds op = []) ∧
      (draws.relay.token 0 ≠ draws.relay.token 1 → Registry.Careful op) := by
  unfold request at hop
  split at hop
  · obtain ⟨x, -, rfl⟩ := Option.map_eq_some_iff.mp hop
    exact ⟨fun _ => rfl, fun _ => trivial⟩
  · split at hop
    · cases hop
    · obtain ⟨x, -, rfl⟩ := Option.map_eq_some_iff.mp hop
      exact ⟨fun _ => rfl, fun _ => trivial⟩
  · obtain ⟨x, -, rfl⟩ := Option.map_eq_some_iff.mp hop
    exact ⟨fun _ => rfl, fun _ => trivial⟩
  · obtain ⟨x, -, rfl⟩ := Option.map_eq_some_iff.mp hop
    exact ⟨fun _ => rfl, fun _ => trivial⟩
  · obtain ⟨x, -, rfl⟩ := Option.map_eq_some_iff.mp hop
    exact ⟨fun _ => rfl, fun _ => trivial⟩
  · obtain ⟨x, -, rfl⟩ := Option.map_eq_some_iff.mp hop
    exact ⟨fun _ => rfl, fun _ => trivial⟩
  · obtain ⟨x, -, rfl⟩ := Option.map_eq_some_iff.mp hop
    exact ⟨fun _ => rfl, fun _ => trivial⟩
  · cases hop
    exact ⟨fun _ => rfl, fun _ => trivial⟩
  · obtain ⟨x, -, rfl⟩ := Option.map_eq_some_iff.mp hop
    exact ⟨fun _ => rfl, fun _ => trivial⟩
  · obtain ⟨x, -, rfl⟩ := Option.map_eq_some_iff.mp hop
    exact ⟨fun _ => rfl, fun h => h⟩
  · cases hop

/-- A source that is not admitted gets no answer. -/
theorem onUdp_dropped {src : Address} {dgram : Bytes} {now : Instant} {admitted : Bool}
    (hdrop : ((src.val.ip.bytes ∉ s.udpBuckets && s.udpBuckets.entries.length ≥ s.maxUdpSources) ||
      !admitted) = true) : (s.onUdp src dgram now admitted).1 = [] := by
  unfold onUdp
  split
  · rfl
  · rename_i hroom
    have hadmitted : (!admitted) = true := (Bool.or_eq_true_iff.mp hdrop).resolve_left hroom
    dsimp only
    rw [if_pos hadmitted]

/-- A bind is answered if the registry takes it. -/
theorem onUdp_bind (now : Instant) {src : Address} {dgram : Bytes} {admitted : Bool} {h : Header}
    {r r' : Reader} {m : UdpRelayBind}
    (hdrop : ¬ ((src.val.ip.bytes ∉ s.udpBuckets &&
      s.udpBuckets.entries.length ≥ s.maxUdpSources) || !admitted) = true)
    (hh : Header.decode { rest := dgram } ctlVersion = (some h, r))
    (htype : h.type = .udpRelayBind) (hm : UdpRelayBind.decode.run r = some (m, r')) :
    (s.onUdp src dgram now admitted).1 ≠ [] ↔
      (s.registry.udpBind m.relayId m.token src now).1 = true := by
  rw [Bool.or_eq_true_iff, not_or] at hdrop
  have hwho : ¬ h.type = .whoAmI := by rw [htype]; decide
  unfold onUdp
  rw [if_neg hdrop.1]
  dsimp only
  rw [if_neg hdrop.2, hh]
  dsimp only
  rw [if_neg hwho, if_pos htype, hm]
  dsimp only
  cases (s.registry.udpBind m.relayId m.token src now).1 with
  | false => exact ⟨fun hne => absurd rfl hne, fun hfalse => absurd hfalse Bool.false_ne_true⟩
  | true => exact ⟨fun _ => rfl, fun _ => List.cons_ne_nil _ _⟩

theorem binds_udp (src : Address) (dgram : Bytes) (now : Instant) (admitted : Bool) :
    s.binds (.udp src dgram now admitted) =
      trace Registry.binds (Registry.step P) s.registry
        (s.calls P (.udp src dgram now admitted)) := by
  unfold binds calls
  rcases hh : Header.decode { rest := dgram } ctlVersion with ⟨- | h, r⟩
  · simp only [hh]
    rw [ite_self]
    rfl
  simp only [hh]
  by_cases hdrop : ((src.val.ip.bytes ∉ s.udpBuckets &&
      s.udpBuckets.entries.length ≥ s.maxUdpSources) || !admitted) = true
  · rw [if_pos hdrop, if_neg fun hsent => hsent.2 (onUdp_dropped hdrop)]
    rfl
  rw [if_neg hdrop]
  by_cases hbind : h.type = .udpRelayBind
  · have hwho : ¬ h.type = .whoAmI := by rw [hbind]; decide
    rw [udpRequest, if_neg hwho, if_pos hbind]
    cases hm : UdpRelayBind.decode.run r with
    | none =>
        rw [Option.map_none, Option.map_none, Option.toList_none, ite_self]
        rfl
    | some x =>
        have hsent := onUdp_bind now hdrop hh hbind hm
        rw [Option.map_some, Option.map_some, Option.toList_some, Option.toList_some]
        show _ = s.registry.binds (.udpBind x.1.relayId x.1.token src now) ++ []
        rw [List.append_nil, Registry.binds]
        by_cases hok : (s.registry.udpBind x.1.relayId x.1.token src now).1 = true
        · rw [if_pos hok, if_pos ⟨hbind, hsent.mpr hok⟩]
        · rw [if_neg hok, if_neg fun hboth => hok (hsent.mp hboth.2)]
  · rw [if_neg fun hboth => hbind hboth.1, udpRequest, if_neg hbind]
    split
    · rfl
    split
    · cases RelayData.decode.run r <;> rfl
    · rfl

/-- The binds of an event are those of its calls. -/
theorem binds_eq (e : Event) :
    s.binds e = trace Registry.binds (Registry.step P) s.registry (s.calls P e) := by
  cases e with
  | udp src dgram now admitted => exact binds_udp src dgram now admitted
  | message key msg now admitted draws =>
      rw [trace_binds_nil]
      · rfl
      · intro op hop
        obtain ⟨conn, h, r, -, -, hreq⟩ := mem_calls_message hop
        exact (request_binds hreq).1
  | opened key peer => rfl
  | closed key => rfl
  | tick now => rfl
  | charge id bytes now => rfl
  | stats now => rfl

theorem calls_careful {e : Event} (he : TokensDiffer e) {op : Registry.Op}
    (hop : op ∈ s.calls P e) : Registry.Careful op := by
  cases e with
  | udp src dgram now admitted =>
      simp only [calls] at hop
      split at hop
      · cases hop
      split at hop
      · have hreq := Option.mem_toList.mp hop
        unfold udpRequest at hreq
        split at hreq
        · cases hreq
        split at hreq
        · obtain ⟨x, -, rfl⟩ := Option.map_eq_some_iff.mp hreq
          exact src.property
        split at hreq
        · obtain ⟨x, -, rfl⟩ := Option.map_eq_some_iff.mp hreq
          trivial
        · cases hreq
      · cases hop
  | message key msg now admitted draws =>
      obtain ⟨conn, h, r, -, -, hreq⟩ := mem_calls_message hop
      exact (request_binds hreq).2 he
  | opened key peer => cases hop
  | closed key =>
      rw [List.mem_singleton.mp hop]
      trivial
  | tick now =>
      rw [List.mem_singleton.mp hop]
      trivial
  | charge id bytes now =>
      rw [List.mem_singleton.mp hop]
      trivial
  | stats now =>
      rw [List.mem_singleton.mp hop]
      trivial

/-- In every state a run reaches, the addresses are where its binds put them. -/
theorem bound_run {log : List Bind} (h : s.registry.Bound log) {events : List Event}
    (hdiffer : ∀ e ∈ events, TokensDiffer e) :
    (run (step P) s events).registry.Bound (log ++ trace binds (step P) s events) := by
  induction events generalizing s log with
  | nil => rwa [show trace binds (step P) s [] = [] from rfl, List.append_nil]
  | cons e events ih =>
      have hone : (step P s e).registry.Bound (log ++ s.binds e) := by
        rw [step_registry, binds_eq (P := P)]
        exact h.run fun op hop => calls_careful (hdiffer e List.mem_cons_self) hop
      have hrest := ih hone fun x hx => hdiffer x (List.mem_cons_of_mem _ hx)
      rwa [List.append_assoc] at hrest

end Runs

/-! ## What may be sent

To whom, how much and at whose charge. -/

/-- What a datagram may make the server send, given the binds so far, and what
that costs. -/
structure UdpSafe (log : List Bind) (s : ControlService) (src : Address) (dgram : Bytes)
    (now : Instant) (out : List UdpOut) (reg : Registry) : Prop where
  one : out.length ≤ 1
  small : ∀ o ∈ out, o.data.length ≤ dgram.length
  back : ∀ o ∈ out, o.dst = src.val ∨ o.HasType .relayData
  forwarded : ∀ o ∈ out, o.HasType .relayData →
    ∃ h r m r' b side, Header.decode { rest := dgram } ctlVersion = (some h, r) ∧
      h.type = .relayData ∧ RelayData.decode.run r = some (m, r') ∧
      o.Carries .relayData RelayData.decode m ∧
      s.registry.relays.lookup m.relayId = some b ∧ b.kind = .udp ∧
      lastBound log m.relayId (b.token side) = some src.val ∧
      lastBound log m.relayId (b.token (1 - side)) = some o.dst ∧
      b.exhausted = false ∧
      (b.bytes + m.payload.length) % 2 ^ 64 ≤ s.registry.cfg.relayMaxBytes ∧
      reg.relays.lookup m.relayId = some
        { b with bytes := (b.bytes + m.payload.length) % 2 ^ 64, lastSeen := now }

section Safe

variable {log : List Bind} {s : ControlService} {src : Address} {dgram : Bytes} {now : Instant}
  {out : List UdpOut} {reg : Registry}

/-- One datagram back to the sender. -/
theorem safe_back {data : Bytes} {h : Header} {r : Reader} (hlen : data.length ≤ dgram.length)
    (hread : Header.decode { rest := data } ctlVersion = (some h, r)) (hne : h.type ≠ .relayData) :
    s.UdpSafe log src dgram now [{ dst := src, data := data }] reg where
  one := Nat.le_refl 1
  small o ho := by
    rw [List.mem_singleton.mp ho]
    exact hlen
  back o ho := by
    rw [List.mem_singleton.mp ho]
    exact .inl rfl
  forwarded o ho hrelay := by
    obtain ⟨h', r', hread', htype⟩ := hrelay
    rw [List.mem_singleton.mp ho, hread] at hread'
    cases hread'
    exact absurd htype hne

theorem UdpOutcome.safe (hout : s.UdpOutcome src dgram now out reg) (hbound : s.registry.Bound log) :
    s.UdpSafe log src dgram now out reg := by
  cases hout with
  | silent => exact ⟨Nat.zero_le 1, nofun, nofun, nofun⟩
  | @told h r r' m hh hm hle =>
      have htxn := (Header.decode_spends hh).2.2.1
      have hlen := length_endpoint_le src.val
      have hwrote : ∀ w, Wrote w (WhoAmIOk.encode { nonce := m.nonce, mapped := src } w)
          ([] ++ beBytes 8 m.nonce ++ src.val.image) :=
        fun w => ((Wrote.refl w).u64 m.nonce).endpoint src.val
      obtain ⟨-, hread⟩ := decode_message .whoAmIOk h.txnId hwrote
        (by rw [List.nil_append, List.length_append, length_beBytes]; omega) (by decide) htxn
      exact safe_back hle hread (show MsgType.whoAmIOk ≠ .relayData by decide)
  | @bound h r r' m hh htype hm hok =>
      obtain ⟨-, -, htxn, -, hspent⟩ := Header.decode_spends hh
      have hspent' := (UdpRelayBind.decode_spends hm).2
      have hwrote : ∀ w, Wrote w (UdpRelayBindOk.encode { relayId := m.relayId } w)
          ([] ++ beBytes 8 m.relayId) := fun w => (Wrote.refl w).u64 m.relayId
      obtain ⟨hlen, hread⟩ := decode_message .udpRelayBindOk h.txnId hwrote (by simp) (by decide)
        htxn
      refine safe_back ?_ hread (show MsgType.udpRelayBindOk ≠ .relayData by decide)
      dsimp only at hspent
      rw [hlen, List.nil_append, length_beBytes]
      omega
  | @forwarded h r r' m dst hh htype hm hdst =>
      obtain ⟨-, -, htxn, -, hspent⟩ := Header.decode_spends hh
      obtain ⟨hid, hcap, hspent'⟩ := RelayData.decode_spends hm
      have himage : m.image.length = 10 + m.payload.length := by
        rw [RelayData.image, List.length_append, length_beBytes, length_blobImage,
          List.take_of_length_le hcap]
        omega
      have hmax : kMaxDatagram = 1200 := rfl
      obtain ⟨hlen, hread⟩ := decode_message .relayData 0 m.wrote (by omega) (by decide)
        (by decide)
      have hreads := (RelayData.reads hid).whole []
      rw [List.append_nil, List.take_of_length_le hcap] at hreads
      obtain ⟨b, side, a, hb, hkind, ha, hsame, hother, hgood, hroom, hcharged⟩ :=
        Registry.udpForward_some hdst
      obtain ⟨-, haddr⟩ := hbound m.relayId b hb
      obtain ⟨hnormal, hlast⟩ := haddr side a ha
      obtain rfl := Endpoint.eq_of_same hnormal src.property hsame
      have htyped : UdpOut.HasType { dst := dst, data := message .relayData 0 m.encode } .relayData :=
        ⟨_, _, hread, rfl⟩
      refine ⟨Nat.le_refl 1, fun x hx => ?_, fun x hx => ?_, fun x hx _ => ?_⟩
      · rw [List.mem_singleton.mp hx]
        dsimp only at hspent ⊢
        omega
      · rw [List.mem_singleton.mp hx]
        exact .inr htyped
      · rw [List.mem_singleton.mp hx]
        exact ⟨h, r, m, r', b, side, hh, htype, hm, ⟨_, _, hread, rfl, hreads⟩, hb, hkind, hlast,
          (haddr (1 - side) dst hother).2, hgood, hroom, hcharged⟩

end Safe

/-- In every state a run of the service reaches, whatever arrives from whatever
address: at most one datagram is sent, no longer than what arrived and back to
where it came from, unless it is passed on; and it is passed on only from the
address the last bind with the token of one side of the binding came from, to
the address the last bind with the other's came from, with its payload, and
charged.  Assumed is that the two tokens of a binding differ. -/
theorem udp_serves_the_pair (P : Primitives) (cfg : RegistryConfig) (secret : SymKey)
    (maxUdpSources : Nat) (events : List Event) (hdiffer : ∀ e ∈ events, TokensDiffer e)
    (src : Address) (dgram : Bytes) (now : Instant) (admitted : Bool) :
    let s := run (step P) (create cfg secret maxUdpSources) events
    s.UdpSafe (trace binds (step P) (create cfg secret maxUdpSources) events) src dgram now
      (s.onUdp src dgram now admitted).1 (s.onUdp src dgram now admitted).2.registry := by
  intro s
  have hinit : (create cfg secret maxUdpSources).registry.Bound [] := by
    intro id b hb
    cases hb
  have hbound := bound_run (P := P) hinit hdiffer
  rw [List.nil_append] at hbound
  exact (onUdp_outcome s src dgram now admitted).safe hbound

/-- A bind of the samples' binding with the token of `side`, as a datagram from
`port`. -/
def sampleBind (side : Fin 2) (port : UInt16) : Event :=
  .udp (sampleAddress port)
    (message .udpRelayBind 1
      (UdpRelayBind.encode { relayId := 9, token := sampleDraws.relay.token side })) 5 true

/-- Two members with a relay for datagrams, the first one bound twice. -/
def sampleUdpRun : List Event :=
  [.opened 1 (sampleAddress 7), .opened 2 (sampleAddress 8), sampleMessage 1 sampleRegister,
   sampleMessage 2 sampleRegister,
   sampleMessage 1 (message .relayAlloc 6 (RelayAlloc.encode
    { fromDev := sampleDevice 7, peerDev := sampleDevice 8, kind := .udp })),
   sampleBind 0 30, sampleBind 0 31, sampleBind 1 40]

/-- A datagram for the other side. -/
def sampleData : Bytes := message .relayData 0 (RelayData.encode { relayId := 9, payload := [1, 2] })

theorem udp_serves_the_pair_sample :
    let s := run (step Primitives.checksum) (create {} (Vector.replicate 32 0) 16384) sampleUdpRun
    (s.onUdp (sampleAddress 31) sampleData 6 true).1 =
        [{ dst := (sampleAddress 40).val, data := sampleData }] ∧
      (s.onUdp (sampleAddress 30) sampleData 6 true).1 = [] ∧
      s.UdpSafe (trace binds (step Primitives.checksum) (create {} (Vector.replicate 32 0) 16384)
          sampleUdpRun) (sampleAddress 31) sampleData 6
        (s.onUdp (sampleAddress 31) sampleData 6 true).1
        (s.onUdp (sampleAddress 31) sampleData 6 true).2.registry := by
  refine ⟨by decide +kernel, by decide +kernel, ?_⟩
  refine udp_serves_the_pair Primitives.checksum {} (Vector.replicate 32 0) 16384 sampleUdpRun
    (fun e he => ?_) (sampleAddress 31) sampleData 6 true
  have htokens : sampleDraws.relay.token 0 ≠ sampleDraws.relay.token 1 := by decide +kernel
  simp only [sampleUdpRun, sampleMessage, sampleBind, List.mem_cons, List.not_mem_nil,
    or_false] at he
  rcases he with rfl | rfl | rfl | rfl | rfl | rfl | rfl | rfl
  · trivial
  · trivial
  · exact htokens
  · exact htokens
  · exact htokens
  · trivial
  · trivial
  · trivial

end ControlService

end Server

end UConnect
