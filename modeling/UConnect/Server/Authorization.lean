/-
  Server/Authorization.lean --- a connection speaks for its own devices only.

  Source: server/control_service.cpp, `on_message`, and the ownership checks of
  server/registry.cpp.

  The device a message speaks for is the one it names first (`speaksFor`).  A
  message for a device of another connection, or of none, is an error and
  changes nothing; a message for a device of the sender's own changes no record
  of another connection, and whatever it makes the server send to another
  connection names that device.  The one way to another connection's record is
  to register its topic from its address.
-/
import UConnect.Server.Replies

set_option autoImplicit false

namespace UConnect.Server

open UConnect UConnect.Foundation UConnect.Crypto UConnect.Wire

/-! ## The type of a frame

A frame names its type in its first byte behind the length. -/

/-- The message in the frame has this type. -/
def Framed.HasType (f : Framed) (type : MsgType) : Prop :=
  ∃ m h r, f.bytes = frame m ∧ Header.decode { rest := m } ctlVersion = (some h, r) ∧
    h.type = type

/-- A frame has the type of the reply it was made for. -/
theorem Framed.Says.type_eq {f : Framed} {dst : ConnKey} {type type' : MsgType} {txn : Nat}
    {bs : Bytes} (h : f.Says dst type txn bs) (hknown : classify type ≠ .unknown)
    (htxn : txn < 2 ^ 32) (htype : f.HasType type') : type' = type := by
  obtain ⟨m, h', r, hbytes, hdecode, rfl⟩ := htype
  have hfits : (Header.image { type := type, version := ctlVersion, txnId := txn } ++ bs).length ≤
      kMaxFrame := by
    rw [List.length_append, Header.length_image]
    exact h.fits
  have hm : m.length ≤ kMaxFrame := by
    refine Nat.not_lt.mp fun hlong => h.length_le.1 ?_
    rw [hbytes, frame, if_pos (by rw [decide_eq_true hlong, Bool.true_or])]
  rw [h.bytes_eq] at hbytes
  rw [← frame_inj hfits hm hbytes, Header.decode_image rfl hknown htxn] at hdecode
  cases hdecode
  rfl

namespace ControlService

/-! ## What a message may do

Ownership is read from the registry before the message. -/

/-- The device a message speaks for. -/
def speaksFor (h : Header) (r : Reader) : Option DevId :=
  match Request.ofType h.type with
  | .keepalive => if r.remaining = 0 then none else (DevRef.decode.run r).map (·.1.devId)
  | .update => (Update.decode.run r).map (·.1.devId)
  | .unregister => (DevRef.decode.run r).map (·.1.devId)
  | .connect => (Connect.decode.run r).map (·.1.fromDev)
  | .relayAlloc => (RelayAlloc.decode.run r).map (·.1.fromDev)
  | _ => none

/-- The connection owns the record of the device. -/
def Owns (s : ControlService) (key : ConnKey) (dev : DevId) : Prop :=
  ∃ e, s.registry.byDev.lookup dev = some e ∧ e.owner = key

/-- What a message of `key` may do to the service and make it send. -/
structure Authorized (s : ControlService) (key : ConnKey) (msg : Bytes) (now : Instant)
    (res : Result) (s' : ControlService) : Prop where
  /-- A record of another connection stays, unless its topic is registered from
  its address. -/
  records : ∀ dev e, s.registry.byDev.lookup dev = some e → e.owner ≠ key →
    s'.registry.byDev.lookup dev = some e ∨
      ∃ conn h r m r', s.conns.lookup key = some conn ∧
        Header.decode { rest := msg } ctlVersion = (some h, r) ∧
        Request.ofType h.type = .register ∧ (Register.decode h).run r = some (m, r') ∧
        m.id = e.topicId ∧ conn.peer.val = e.boundAddr ∧
        s'.registry.byDev.lookup dev = some (Registry.recordOf m dev conn.peer key now)
  /-- An introduction is from a device of the sender to the owner of a record of
  its topic. -/
  relayed : ∀ f ∈ res.out, f.HasType .relayed →
    ∃ h r m r' e t, Header.decode { rest := msg } ctlVersion = (some h, r) ∧
      Connect.decode.run r = some (m, r') ∧
      f.Carries .relayed 0 Relayed.decode { fromDev := m.fromDev, payload := m.payload } ∧
      s.registry.byDev.lookup m.fromDev = some e ∧ e.owner = key ∧
      s.registry.byDev.lookup m.toDev = some t ∧ t.topicId = e.topicId ∧ f.dst = t.owner
  /-- An offer is from a device of the sender, for a peer of its topic. -/
  offers : ∀ f ∈ res.out, f.HasType .relayOffer →
    ∃ h r m r' v e p, Header.decode { rest := msg } ctlVersion = (some h, r) ∧
      RelayAlloc.decode.run r = some (m, r') ∧
      f.Carries .relayOffer 0 RelayOffer.decode v ∧ v.fromDev = m.fromDev ∧
      s.registry.byDev.lookup m.fromDev = some e ∧ e.owner = key ∧
      s.registry.byDev.lookup m.peerDev = some p ∧ p.topicId = e.topicId
  /-- For any other device there is an error, or the end of the connection. -/
  foreign : ∀ h r dev, Header.decode { rest := msg } ctlVersion = (some h, r) →
    speaksFor h r = some dev → ¬ s.Owns key dev →
    ((res.close = true ∧ res.out = []) ∨
      ∃ code, code ≠ .none ∧ res.close = false ∧ res.out = [error key h.txnId code]) ∧
    s'.registry = s.registry

/-! ## Devices of others

Each operation that names a device refuses one that is not the sender's, and
changes nothing. -/

section Foreign

variable {r : Registry} {dev : DevId} {key : ConnKey}

theorem refresh_foreign (now : Instant) (h : ¬ ∃ e, r.byDev.lookup dev = some e ∧ e.owner = key) :
    (r.refresh dev key now).1 ≠ .none ∧ (r.refresh dev key now).2 = r := by
  unfold Registry.refresh
  split
  · exact ⟨nofun, rfl⟩
  · rename_i e he
    rw [if_pos fun howner => h ⟨e, he, howner⟩]
    exact ⟨nofun, rfl⟩

theorem update_foreign (now : Instant) {msg : Update}
    (h : ¬ ∃ e, r.byDev.lookup msg.devId = some e ∧ e.owner = key) :
    (r.update msg key now).1 ≠ .none ∧ (r.update msg key now).2 = r := by
  unfold Registry.update
  split
  · exact ⟨nofun, rfl⟩
  · rename_i e he
    rw [if_pos fun howner => h ⟨e, he, howner⟩]
    exact ⟨nofun, rfl⟩

theorem unregister_foreign (h : ¬ ∃ e, r.byDev.lookup dev = some e ∧ e.owner = key) :
    (r.unregister dev key).1 ≠ .none ∧ (r.unregister dev key).2 = r := by
  unfold Registry.unregister
  split
  · exact ⟨nofun, rfl⟩
  · rename_i e he
    rw [if_pos fun howner => h ⟨e, he, howner⟩]
    exact ⟨nofun, rfl⟩

theorem connectTarget_foreign (dst : DevId)
    (h : ¬ ∃ e, r.byDev.lookup dev = some e ∧ e.owner = key) :
    r.connectTarget dev dst key = (none, r) := by
  unfold Registry.connectTarget
  split
  · rename_i f t hf ht
    rw [if_pos fun howner => h ⟨f, hf, howner⟩]
  · rfl

theorem relayAlloc_foreign {reg : Registry} {peer : DevId} {kind : RelayKind} {addr : Endpoint}
    {now : Instant} {draws : Registry.RelayDraws} {g : Registry.RelayGrant}
    (h : ¬ ∃ e, r.byDev.lookup dev = some e ∧ e.owner = key)
    (hg : r.relayAlloc dev peer kind key addr now draws = some (g, reg)) :
    g.code ≠ .none ∧ reg = r := by
  cases Registry.allocation hg with
  | barred hcode => exact ⟨hcode, rfl⟩
  | full hf _ howner => exact absurd ⟨_, hf, howner⟩ h
  | found hf _ howner => exact absurd ⟨_, hf, howner⟩ h
  | made hf _ howner => exact absurd ⟨_, hf, howner⟩ h

end Foreign

section Messages

variable {P : Primitives} {s s' : ControlService} {key : ConnKey} {conn : Conn} {h : Header}
  {r : Reader} {now : Instant} {draws : Draws} {res : Result}

/-- The registry refuses, and the refusal is all that is sent. -/
theorem refused {reg : Registry} {code : ErrorCode} {ok : List Framed} (hcode : code ≠ .none)
    (hreg : reg = s.registry)
    (ha : (if code ≠ .none then s.answer reg [error key h.txnId code] else s.answer reg ok) =
      some (res, s')) :
    (∃ code, code ≠ .none ∧ res.close = false ∧ res.out = [error key h.txnId code]) ∧
      s'.registry = s.registry := by
  rw [if_pos hcode] at ha
  obtain ⟨rfl, rfl⟩ := answer_eq ha
  exact ⟨⟨code, hcode, rfl, rfl⟩, hreg⟩

/-- A message for a device of another connection is an error and nothing else. -/
theorem dispatch_foreign {dev : DevId} (hd : s.dispatch P key conn h r now draws = some (res, s'))
    (hspeaks : speaksFor h r = some dev) (hforeign : ¬ s.Owns key dev) :
    (∃ code, code ≠ .none ∧ res.close = false ∧ res.out = [error key h.txnId code]) ∧
      s'.registry = s.registry := by
  unfold dispatch at hd
  unfold speaksFor at hspeaks
  cases hreq : Request.ofType h.type with
  | keepalive =>
      simp only [hreq, onKeepalive] at hd hspeaks
      split at hd
      · rename_i hempty
        rw [if_pos hempty] at hspeaks
        cases hspeaks
      · rename_i hbody
        rw [if_neg hbody] at hspeaks
        obtain ⟨x, hm, rfl⟩ := Option.map_eq_some_iff.mp hspeaks
        rw [hm] at hd
        obtain ⟨hcode, hreg⟩ := refresh_foreign now hforeign
        exact refused hcode hreg hd
  | update =>
      simp only [hreq, onUpdate] at hd hspeaks
      obtain ⟨x, hm, rfl⟩ := Option.map_eq_some_iff.mp hspeaks
      rw [hm] at hd
      obtain ⟨hcode, hreg⟩ := update_foreign now hforeign
      exact refused hcode hreg hd
  | unregister =>
      simp only [hreq, onUnregister] at hd hspeaks
      obtain ⟨x, hm, rfl⟩ := Option.map_eq_some_iff.mp hspeaks
      rw [hm] at hd
      obtain ⟨hcode, hreg⟩ := unregister_foreign hforeign
      exact refused hcode hreg hd
  | connect =>
      simp only [hreq, onConnect] at hd hspeaks
      obtain ⟨x, hm, rfl⟩ := Option.map_eq_some_iff.mp hspeaks
      rw [hm] at hd
      simp only [connectTarget_foreign x.1.toDev hforeign] at hd
      obtain ⟨rfl, rfl⟩ := answer_eq hd
      exact ⟨⟨.notFound, by decide, rfl, rfl⟩, rfl⟩
  | relayAlloc =>
      simp only [hreq, onRelayAlloc] at hd hspeaks
      obtain ⟨x, hm, rfl⟩ := Option.map_eq_some_iff.mp hspeaks
      rw [hm] at hd
      obtain ⟨⟨g, reg⟩, hg, ha⟩ := Option.bind_eq_some_iff.mp hd
      obtain ⟨hcode, hreg⟩ := relayAlloc_foreign hforeign hg
      exact refused hcode hreg ha
  | register => rw [hreq] at hspeaks; cases hspeaks
  | lookup => rw [hreq] at hspeaks; cases hspeaks
  | resolve => rw [hreq] at hspeaks; cases hspeaks
  | topics => rw [hreq] at hspeaks; cases hspeaks
  | stats => rw [hreq] at hspeaks; cases hspeaks
  | unsupported => rw [hreq] at hspeaks; cases hspeaks

/-! ## Records of others

What each operation does to a record that is not the sender's. -/

/-- A call that is no registration and acts, if it writes a record at all, for
`key`. -/
def ActsFor (key : ConnKey) : Registry.Op → Prop
  | .refresh _ owner _ => owner = key
  | .update _ owner _ => owner = key
  | .unregister _ owner => owner = key
  | .register _ _ _ _ => False
  | .dropOwner _ => False
  | _ => True

theorem request_actsFor {op : Registry.Op} (hop : request key conn h r now draws = some op) :
    (∃ m r', Request.ofType h.type = .register ∧ (Register.decode h).run r = some (m, r') ∧
        op = .register m conn.peer key now) ∨ ActsFor key op := by
  unfold request at hop
  cases hreq : Request.ofType h.type with
  | register =>
      rw [hreq] at hop
      obtain ⟨x, hm, rfl⟩ := Option.map_eq_some_iff.mp hop
      exact .inl ⟨x.1, x.2, rfl, hm, rfl⟩
  | keepalive =>
      simp only [hreq] at hop
      split at hop
      · cases hop
      · obtain ⟨x, -, rfl⟩ := Option.map_eq_some_iff.mp hop
        exact .inr rfl
  | update =>
      rw [hreq] at hop
      obtain ⟨x, -, rfl⟩ := Option.map_eq_some_iff.mp hop
      exact .inr rfl
  | unregister =>
      rw [hreq] at hop
      obtain ⟨x, -, rfl⟩ := Option.map_eq_some_iff.mp hop
      exact .inr rfl
  | lookup =>
      rw [hreq] at hop
      obtain ⟨x, -, rfl⟩ := Option.map_eq_some_iff.mp hop
      exact .inr trivial
  | resolve =>
      rw [hreq] at hop
      obtain ⟨x, -, rfl⟩ := Option.map_eq_some_iff.mp hop
      exact .inr trivial
  | topics =>
      rw [hreq] at hop
      obtain ⟨x, -, rfl⟩ := Option.map_eq_some_iff.mp hop
      exact .inr trivial
  | stats =>
      rw [hreq] at hop
      cases hop
      exact .inr trivial
  | connect =>
      rw [hreq] at hop
      obtain ⟨x, -, rfl⟩ := Option.map_eq_some_iff.mp hop
      exact .inr trivial
  | relayAlloc =>
      rw [hreq] at hop
      obtain ⟨x, -, rfl⟩ := Option.map_eq_some_iff.mp hop
      exact .inr trivial
  | unsupported => rw [hreq] at hop; cases hop

/-- A call for `key` leaves the records of other connections. -/
theorem ActsFor.record {reg : Registry} {op : Registry.Op} (hop : ActsFor key op) {dev : DevId}
    {e : Entry} (he : reg.byDev.lookup dev = some e) (hne : e.owner ≠ key) :
    (Registry.step P reg op).byDev.lookup dev = some e := by
  generalize hx : (Registry.step P reg op).byDev.lookup dev = x
  have hchange := Registry.step_record P reg op dev
  rw [hx] at hchange
  cases hchange with
  | same => exact he
  | written => exact hop.elim
  | seen he' =>
      cases he.symm.trans he'
      exact absurd hop hne
  | updated he' =>
      cases he.symm.trans he'
      exact absurd hop hne
  | unregistered he' =>
      cases he.symm.trans he'
      exact absurd hop hne
  | dropped => exact hop.elim

/-- A registration that reaches a record is of the record's own topic and
address. -/
theorem register_record (key : ConnKey) (now : Instant) {reg : Registry} {secret : SymKey} {known : List (TopicId × Endpoint)}
    (hsound : reg.Sound P secret known) (hsep : Registry.Separates P secret known) {m : Register}
    {src : Endpoint} (hknown : (m.id, src) ∈ known) {dev : DevId} {e : Entry}
    (he : reg.byDev.lookup dev = some e) :
    (reg.registerEntry P m src key now).2.byDev.lookup dev = some e ∨
      (m.id = e.topicId ∧ src = e.boundAddr ∧
        (reg.registerEntry P m src key now).2.byDev.lookup dev =
          some (Registry.recordOf m dev src key now)) := by
  generalize hx : (reg.registerEntry P m src key now).2.byDev.lookup dev = x
  have hchange := Registry.lookup_registerEntry P reg m src key now dev
  rw [hx] at hchange
  cases hchange with
  | same => exact .inl he
  | written hdev =>
      obtain ⟨-, hderived, hmem⟩ := hsound.topics.derived dev e.stub (Registry.record_eq_stub he)
      have hsecret : reg.view.secret = secret := hsound.secret
      have hpair : (m.id, src) = (e.topicId, e.boundAddr) := by
        refine hsep _ hknown _ hmem ?_
        rw [← hsound.secret, hdev]
        exact hderived
      obtain ⟨hid, hsrc⟩ := Prod.mk.inj hpair
      exact .inr ⟨hid, hsrc, rfl⟩

/-! ## Frames for others

Only an introduction and an offer leave for another connection. -/

section Frames

variable {out : List Framed} {f : Framed}

/-- A frame is a reply of another type to the sender, an introduction or an
offer. -/
theorem Outcome.frame_cases (hout : s.Outcome key conn h r now draws out) (hf : f ∈ out) :
    (∃ type bs, f.Says key type h.txnId bs ∧ classify type ≠ .unknown ∧ type ≠ .relayed ∧
        type ≠ .relayOffer) ∨
      (∃ m r' target, Connect.decode.run r = some (m, r') ∧
        (s.registry.connectTarget m.fromDev m.toDev key).1 = some target ∧
        f = reply target .relayed 0
          (Relayed.encode { fromDev := m.fromDev, payload := m.payload })) ∨
      ∃ m r' g reg, RelayAlloc.decode.run r = some (m, r') ∧
        s.registry.relayAlloc m.fromDev m.peerDev m.kind key conn.peer now draws.relay =
          some (g, reg) ∧ g.code = .none ∧
        f = reply g.peerOwner .relayOffer 0 (RelayOffer.encode
          { relayId := g.id, token := g.peerToken, kind := m.kind, fromDev := m.fromDev
            topic := g.topic }) := by
  cases hout with
  | failed _ =>
      obtain rfl := List.mem_singleton.mp hf
      exact .inl ⟨_, _, error_said _, by decide, by decide, by decide⟩
  | done _ hsaid hplain =>
      obtain rfl := List.mem_singleton.mp hf
      exact .inl ⟨_, _, hsaid, hplain.1, hplain.2.2.1, hplain.2.2.2⟩
  | sampled _ _ hres =>
      obtain rfl := List.mem_singleton.mp hf
      exact .inl ⟨_, _, page_said hres key h.txnId, by decide, by decide, by decide⟩
  | introduced _ hm htarget =>
      exact .inr (.inl ⟨_, _, _, hm, htarget, List.mem_singleton.mp hf⟩)
  | granted _ hm hg hcode =>
      rcases List.mem_cons.mp hf with rfl | hf
      · obtain ⟨bs, hsaid⟩ := relayAllocOk_said _ key h.txnId
        exact .inl ⟨_, bs, hsaid, by decide, by decide, by decide⟩
      · exact .inr (.inr ⟨_, _, _, _, hm, hg, hcode, List.mem_singleton.mp hf⟩)

theorem Outcome.relayed (hout : s.Outcome key conn h r now draws out) (htxn : h.txnId < 2 ^ 32)
    (hf : f ∈ out) (htype : f.HasType .relayed) :
    ∃ m r' e t, Connect.decode.run r = some (m, r') ∧
      f.Carries .relayed 0 Relayed.decode { fromDev := m.fromDev, payload := m.payload } ∧
      s.registry.byDev.lookup m.fromDev = some e ∧ e.owner = key ∧
      s.registry.byDev.lookup m.toDev = some t ∧ t.topicId = e.topicId ∧ f.dst = t.owner := by
  rcases hout.frame_cases hf with
    ⟨type, bs, hsaid, hknown, hne, -⟩ | ⟨m, r', target, hm, htarget, rfl⟩ | ⟨m, r', g, reg, -, -, -, rfl⟩
  · exact absurd (hsaid.type_eq hknown htxn htype).symm hne
  · obtain ⟨e, t, he, ht, howner, htopic, rfl⟩ := Registry.connectTarget_some htarget
    exact ⟨m, r', e, t, hm, (relayed_carries hm t.owner).2, he, howner, ht, htopic.symm, rfl⟩
  · obtain ⟨⟨bs, hsaid⟩, -⟩ := offer_carries _ g.peerOwner
    cases hsaid.type_eq (by decide) (by decide) htype

theorem Outcome.offers (hout : s.Outcome key conn h r now draws out) (htxn : h.txnId < 2 ^ 32)
    (hf : f ∈ out) (htype : f.HasType .relayOffer) :
    ∃ m r' v e p, RelayAlloc.decode.run r = some (m, r') ∧
      f.Carries .relayOffer 0 RelayOffer.decode v ∧ v.fromDev = m.fromDev ∧
      s.registry.byDev.lookup m.fromDev = some e ∧ e.owner = key ∧
      s.registry.byDev.lookup m.peerDev = some p ∧ p.topicId = e.topicId := by
  rcases hout.frame_cases hf with
    ⟨type, bs, hsaid, hknown, -, hne⟩ | ⟨m, r', target, hm, -, rfl⟩ | ⟨m, r', g, reg, hm, hg, hcode, rfl⟩
  · exact absurd (hsaid.type_eq hknown htxn htype).symm hne
  · obtain ⟨⟨bs, hsaid⟩, -⟩ := relayed_carries hm target
    cases hsaid.type_eq (by decide) (by decide) htype
  · obtain ⟨-, hcarries⟩ := offer_carries
      { relayId := g.id, token := g.peerToken, kind := m.kind, fromDev := m.fromDev
        topic := g.topic } g.peerOwner
    cases Registry.allocation hg with
    | barred hbad => exact absurd hcode hbad
    | full => cases hcode
    | found he hp howner htopic =>
        exact ⟨m, r', _, _, _, hm, hcarries, rfl, he, howner, hp, htopic.symm⟩
    | made he hp howner htopic =>
        exact ⟨m, r', _, _, _, hm, hcarries, rfl, he, howner, hp, htopic.symm⟩

end Frames

/-- A message that reaches the `switch` does no more than it may. -/
theorem dispatch_authorized {msg : Bytes} {secret : SymKey} {known : List (TopicId × Endpoint)}
    (hsound : s.registry.Sound P secret known) (hsep : Registry.Separates P secret known)
    (hopen : s.conns.lookup key = some conn)
    (hh : Header.decode { rest := msg } ctlVersion = (some h, r))
    (hknown : ∀ op, request key conn h r now draws = some op → ∀ p ∈ op.registers, p ∈ known)
    (hd : s.dispatch P key conn h r now draws = some (res, s')) :
    s.Authorized key msg now res s' := by
  have hout := (dispatch_outcome hd).2
  have htxn := (Header.decode_spends hh).2.2.1
  refine ⟨fun dev e he hne => ?_, fun f hf htype => ?_, fun f hf htype => ?_, ?_⟩
  · have hreg := congrArg ControlService.registry (dispatch_registry hd)
    dsimp only at hreg
    rw [hreg]
    cases hop : request key conn h r now draws with
    | none => exact .inl he
    | some op =>
        rw [Option.map_some, Option.getD_some]
        rcases request_actsFor hop with ⟨m, r', hreq, hm, rfl⟩ | hacts
        · rcases register_record key now hsound hsep
            (hknown _ hop _ rfl) he with hsame | ⟨hid, hsrc, hnew⟩
          · exact .inl hsame
          · exact .inr ⟨conn, h, r, m, r', hopen, hh, hreq, hm, hid, hsrc, hnew⟩
        · exact .inl (hacts.record he hne)
  · obtain ⟨m, r', e, t, hm, hrest⟩ := hout.relayed htxn hf htype
    exact ⟨h, r, m, r', e, t, hh, hm, hrest⟩
  · obtain ⟨m, r', v, e, p, hm, hrest⟩ := hout.offers htxn hf htype
    exact ⟨h, r, m, r', v, e, p, hh, hm, hrest⟩
  · intro h' r' dev hh' hspeaks hforeign
    cases hh.symm.trans hh'
    obtain ⟨herror, hsame⟩ := dispatch_foreign hd hspeaks hforeign
    exact ⟨.inr herror, hsame⟩

/-- A message that closes its connection does nothing else. -/
theorem closed_authorized {msg : Bytes} (hres : res = { close := true })
    (hsame : s'.registry = s.registry) : s.Authorized key msg now res s' where
  records dev e he _ := .inl (by rw [hsame]; exact he)
  relayed f hf _ := by
    rw [hres] at hf
    cases hf
  offers f hf _ := by
    rw [hres] at hf
    cases hf
  foreign _ _ _ _ _ _ := by
    rw [hres]
    exact ⟨.inl ⟨rfl, rfl⟩, hsame⟩

end Messages

/-- The registry of every state a run reaches is sound for the pairs of a longer
run. -/
theorem sound_run {P : Primitives} (cfg : RegistryConfig) (secret : SymKey) (maxUdpSources : Nat)
    (events : List Event) {known : List (TopicId × Endpoint)}
    (hsep : Registry.Separates P secret known)
    (hknown : ∀ op ∈ (create cfg secret maxUdpSources).allCalls P events, ∀ p ∈ op.registers,
      p ∈ known) :
    (run (step P) (create cfg secret maxUdpSources) events).registry.Sound P secret known := by
  rw [registry_run]
  exact (Registry.keeps_run (I := fun _ _ => True) (fun _ _ _ _ _ _ _ _ => trivial) hsep hknown []
    (Registry.Sound.init P cfg secret known) trivial).1

/-- In every state a run of the service reaches, a message does no more than its
connection may: it leaves the records of other connections, unless it registers
the topic of one from that one's address; what it makes the server send to
another connection names a device of its own; and for a device that is not its
own it gets an error and changes nothing.  Assumed is that device ids tell apart
the topics and addresses that were registered. -/
theorem connections_speak_for_themselves (P : Primitives) (cfg : RegistryConfig) (secret : SymKey)
    (maxUdpSources : Nat) (events : List Event) (key : ConnKey) (msg : Bytes) (now : Instant)
    (admitted : Bool) (draws : Draws) (res : Result) (s' : ControlService)
    (hsep : Registry.Separates P secret
      (((create cfg secret maxUdpSources).allCalls P
        (events ++ [.message key msg now admitted draws])).filterMap Registry.Op.registers))
    (hm : (run (step P) (create cfg secret maxUdpSources) events).onMessage P key msg now admitted
      draws = some (res, s')) :
    (run (step P) (create cfg secret maxUdpSources) events).Authorized key msg now res s' := by
  have hcalls : (create cfg secret maxUdpSources).allCalls P
      (events ++ [.message key msg now admitted draws]) =
      (create cfg secret maxUdpSources).allCalls P events ++
        ((run (step P) (create cfg secret maxUdpSources) events).calls P
          (.message key msg now admitted draws) ++ []) := trace_append _ _ _ _ _
  rw [hcalls, List.append_nil] at hsep
  generalize hknown : ((create cfg secret maxUdpSources).allCalls P events ++
    (run (step P) (create cfg secret maxUdpSources) events).calls P
      (.message key msg now admitted draws)).filterMap Registry.Op.registers = known at hsep
  have hmem : ∀ op ∈ (create cfg secret maxUdpSources).allCalls P events ++
      (run (step P) (create cfg secret maxUdpSources) events).calls P
        (.message key msg now admitted draws), ∀ p ∈ op.registers, p ∈ known := by
    intro op hop p hp
    rw [← hknown]
    exact List.mem_filterMap.mpr ⟨op, hop, hp⟩
  have hsound := sound_run cfg secret maxUdpSources events hsep
    fun op hop => hmem op (List.mem_append_left _ hop)
  generalize run (step P) (create cfg secret maxUdpSources) events = s at *
  rcases onMessage_cases hm with ⟨hres, hsame⟩ | ⟨conn, h, r, hopen, rfl, hh, hd⟩
  · exact closed_authorized hres hsame
  · refine dispatch_authorized hsound hsep hopen hh (fun op hop p hp => ?_) hd
    refine hmem op (List.mem_append_right _ ?_) p hp
    simp only [calls, hopen, hh, hm, Option.isSome_some, Bool.and_self, if_true]
    rw [hop]
    exact List.mem_singleton_self op

/-- Two members, their relay, and a stranger. -/
def sampleStranger : List Event := sampleRun ++ [.opened 3 (sampleAddress 9)]

/-- The stranger asks for a relay in the name of the first device. -/
theorem connections_speak_for_themselves_sample :
    let s := sampleService sampleStranger
    ∃ res s', s.onMessage Primitives.checksum 3 sampleRelay 4 true sampleDraws = some (res, s') ∧
      s.Authorized 3 sampleRelay 4 res s' ∧ s'.registry.relays.keys = [9] ∧
      res.out = [error 3 6 .badAuth] := by
  intro s
  obtain ⟨⟨res, s'⟩, hres⟩ := Option.isSome_iff_exists.mp (show
    (s.onMessage Primitives.checksum 3 sampleRelay 4 true sampleDraws).isSome by decide +kernel)
  have hauthorized := connections_speak_for_themselves Primitives.checksum {} (Vector.replicate 32 0)
    16384 sampleStranger 3 sampleRelay 4 true sampleDraws res s'
    (by unfold Registry.Separates; decide +kernel) hres
  have hsent : (s.onMessage Primitives.checksum 3 sampleRelay 4 true sampleDraws).map
      (fun x => (x.2.registry.relays.keys, x.1.out)) = some ([9], [error 3 6 .badAuth]) := by
    decide +kernel
  rw [hres, Option.map_some, Option.some.injEq] at hsent
  obtain ⟨hrelays, hout⟩ := Prod.mk.inj hsent
  exact ⟨res, s', hres, hauthorized, hrelays, hout⟩

end ControlService

end UConnect.Server
