/-
  Server/Outcomes.lean --- what a message is answered with.

  Source: server/control_service.cpp.

  Every frame a handler puts out is a header and a body that fit
  (`Framed.Says`), so the substitute for a reply that does not fit is never
  sent.  What a message comes to is then one of five things (`Outcome`): an
  error, an ordinary reply, a sample of a topic, an introduction, or a relay
  with the offer to the peer.
-/
import UConnect.Server.Allocation
import UConnect.Server.ServiceRuns
import UConnect.Wire.Sizes

set_option autoImplicit false

namespace UConnect.Server

open UConnect UConnect.Foundation UConnect.Crypto UConnect.Wire

/-! ## Frames

What a handler puts out, read as a header and a body.  The error that stands in
for a reply that is too long fits a frame itself. -/

/-- `f` is one frame for `dst`: a header of this type and transaction, and
behind it `bs`. -/
structure Framed.Says (f : Framed) (dst : ConnKey) (type : MsgType) (txn : Nat) (bs : Bytes) :
    Prop where
  dst_eq : f.dst = dst
  bytes_eq : f.bytes =
    frame (Header.image { type := type, version := ctlVersion, txnId := txn } ++ bs)
  fits : Header.kSize + bs.length ≤ kMaxFrame

section Frames

variable {dst : ConnKey} {type : MsgType} {txn : Nat} {bs : Bytes} {f : Framed}

/-- A reply that fits is sent as it is. -/
theorem reply_said_of_fits {body : Writer → Writer} (hbody : ∀ w, Wrote w (body w) bs)
    (hfits : Header.kSize + bs.length ≤ kMaxFrame) :
    (reply dst type txn body).Says dst type txn bs := by
  refine ⟨rfl, ?_, hfits⟩
  have hmessage := message_eq type txn 0 hbody
  rw [if_pos hfits] at hmessage
  have hne : (message type txn body 0).isEmpty = false := by
    rw [hmessage]
    rfl
  unfold reply
  dsimp only
  rw [hne, if_neg Bool.false_ne_true, hmessage]

theorem reply_said {body : Writer → Writer} (hbody : ∀ w, Wrote w (body w) bs)
    (hlen : bs.length ≤ 32000) : (reply dst type txn body).Says dst type txn bs := by
  have hk : kMaxFrame = 32768 := by decide
  have hsize : Header.kSize = 8 := rfl
  exact reply_said_of_fits hbody (by omega)

theorem replyEmpty_said : (replyEmpty dst type txn).Says dst type txn [] := by
  refine ⟨rfl, ?_, by decide⟩
  simp only [replyEmpty, emptyMessage_eq, List.append_nil]

theorem length_errorImage_le (e : Error) : e.image.length ≤ 258 := by
  have hle : (e.reason.take 255).length ≤ 255 := List.length_take_le _ _
  simp only [Error.image, List.length_append, length_beBytes, List.length_cons, List.length_nil]
  omega

theorem error_said (code : ErrorCode) : (error dst txn code).Says dst .error txn
    (Error.image { code := code.code, reason := ascii code.text }) := by
  have hle := length_errorImage_le { code := code.code, reason := ascii code.text }
  exact reply_said (Error.wrote _) (by omega)

/-- The body of the substitute. -/
def tooLongBody : Error :=
  { code := ErrorCode.badRequest.code, reason := ascii "reply exceeds frame limit" }

theorem tooLong_eq (txn : Nat) : tooLong txn =
    Header.image { type := .error, version := ctlVersion, txnId := txn } ++ tooLongBody.image := by
  have hle := length_errorImage_le tooLongBody
  have hk : kMaxFrame = 32768 := by decide
  have hsize : Header.kSize = 8 := rfl
  have hmessage := message_eq .error txn 0 tooLongBody.wrote
  rw [if_pos (by omega)] at hmessage
  exact hmessage

theorem frame_inj {m m' : Bytes} (hm : m.length ≤ kMaxFrame) (hm' : m'.length ≤ kMaxFrame)
    (h : frame m = frame m') : m = m' := by
  rw [frame_eq hm, frame_eq hm'] at h
  exact (List.append_inj h (by rw [length_beBytes, length_beBytes])).2

/-- Two frames that are the same say the same. -/
theorem Framed.Says.frame_ne (h : f.Says dst type txn bs) {txn' : Nat}
    (hne : type = .error → bs ≠ tooLongBody.image) : f.bytes ≠ frame (tooLong txn') := by
  intro heq
  have hlen := length_errorImage_le tooLongBody
  have hk : kMaxFrame = 32768 := by decide
  have hsize : Header.kSize = 8 := rfl
  have hfits := h.fits
  rw [h.bytes_eq, tooLong_eq] at heq
  have hinj := frame_inj (by rw [List.length_append, Header.length_image]; omega)
    (by rw [List.length_append, Header.length_image]; omega) heq
  obtain ⟨hheader, hbody⟩ := List.append_inj hinj (by rw [Header.length_image, Header.length_image])
  have htype : type = .error := (List.cons.inj hheader).1
  exact hne htype hbody

/-- No error the server sends reads like the substitute. -/
theorem errorImage_ne (code : ErrorCode) :
    Error.image { code := code.code, reason := ascii code.text } ≠ tooLongBody.image := by
  cases code <;> decide

/-- The frame is a length and the message behind it. -/
theorem Framed.Says.length_le (h : f.Says dst type txn bs) :
    f.bytes ≠ [] ∧ f.bytes.length ≤ kMaxFrame + 2 := by
  have hfits := h.fits
  have hle : (Header.image { type := type, version := ctlVersion, txnId := txn } ++ bs).length ≤
      kMaxFrame := by
    rw [List.length_append, Header.length_image]
    exact hfits
  rw [h.bytes_eq, frame_eq hle]
  refine ⟨fun hnil => ?_, ?_⟩
  · have hlen := length_lengthPrefixed
      (Header.image { type := type, version := ctlVersion, txnId := txn } ++ bs)
    rw [hnil, List.length_nil] at hlen
    omega
  · rw [length_lengthPrefixed]
    omega

end Frames

/-! ## Outcomes

The five things a message can come to, and a lemma for each handler that says
which. -/

namespace ControlService

/-- A message that is neither an introduction nor a relay that is granted, nor a
lookup. -/
structure Ordinary (s : ControlService) (key : ConnKey) (conn : Conn) (h : Header) (r : Reader)
    (now : Instant) (draws : Draws) : Prop where
  connect : Request.ofType h.type = .connect → ∀ {m : Connect} {r' : Reader},
    Connect.decode.run r = some (m, r') →
      (s.registry.connectTarget m.fromDev m.toDev key).1 = none
  relayAlloc : Request.ofType h.type = .relayAlloc → ∀ {m : RelayAlloc} {r' : Reader},
    RelayAlloc.decode.run r = some (m, r') → ∀ {g : Registry.RelayGrant} {reg : Registry},
      s.registry.relayAlloc m.fromDev m.peerDev m.kind key conn.peer now draws.relay =
        some (g, reg) → g.code ≠ .none
  lookup : Request.ofType h.type = .lookup → (Lookup.decode h).run r = none

/-- The type of an ordinary reply. -/
def PlainType (type : MsgType) : Prop :=
  classify type ≠ .unknown ∧ type ≠ .error ∧ type ≠ .relayed ∧ type ≠ .relayOffer

instance : DecidablePred PlainType :=
  fun _ => inferInstanceAs (Decidable (_ ∧ _))

/-- What a message comes to. -/
inductive Outcome (s : ControlService) (key : ConnKey) (conn : Conn) (h : Header) (r : Reader)
    (now : Instant) (draws : Draws) : List Framed → Prop where
  | failed {code : ErrorCode} (hordinary : s.Ordinary key conn h r now draws) :
      Outcome s key conn h r now draws [error key h.txnId code]
  | done {f : Framed} {type : MsgType} {bs : Bytes} (hordinary : s.Ordinary key conn h r now draws)
      (hsaid : f.Says key type h.txnId bs) (htype : PlainType type) :
      Outcome s key conn h r now draws [f]
  | sampled {m : Lookup} {r' : Reader} {res : Registry.LookupResult}
      (hreq : Request.ofType h.type = .lookup) (hm : (Lookup.decode h).run r = some (m, r'))
      (hres : (s.registry.lookup m.id m.max m.wantMeta now draws.sampler).1 = some res) :
      Outcome s key conn h r now draws
        [reply key .lookupOk h.txnId
          (LookupOk.encode { id := m.id, mode := res.mode, total := res.total
                             entries := res.entries.take (fitting 28 res.entries) })]
  | introduced {m : Connect} {r' : Reader} {target : ConnKey}
      (hreq : Request.ofType h.type = .connect) (hm : Connect.decode.run r = some (m, r'))
      (htarget : (s.registry.connectTarget m.fromDev m.toDev key).1 = some target) :
      Outcome s key conn h r now draws
        [reply target .relayed 0 (Relayed.encode { fromDev := m.fromDev, payload := m.payload })]
  | granted {m : RelayAlloc} {r' : Reader} {g : Registry.RelayGrant} {reg : Registry}
      (hreq : Request.ofType h.type = .relayAlloc) (hm : RelayAlloc.decode.run r = some (m, r'))
      (hg : s.registry.relayAlloc m.fromDev m.peerDev m.kind key conn.peer now draws.relay =
        some (g, reg)) (hcode : g.code = .none) :
      Outcome s key conn h r now draws
        [reply key .relayAllocOk h.txnId (RelayAllocOk.encode
            { relayId := g.id, token := g.token, kind := m.kind, maxKib := g.maxKib }),
          reply g.peerOwner .relayOffer 0 (RelayOffer.encode
            { relayId := g.id, token := g.peerToken, kind := m.kind, fromDev := m.fromDev
              topic := g.topic })]

section Handlers

variable {P : Primitives} {s s' : ControlService} {key : ConnKey} {conn : Conn} {h : Header}
  {r : Reader} {now : Instant} {draws : Draws} {res : Result}

/-- A message of any other kind. -/
theorem ordinary_of_request (hconnect : Request.ofType h.type ≠ .connect)
    (hrelay : Request.ofType h.type ≠ .relayAlloc) (hlookup : Request.ofType h.type ≠ .lookup) :
    s.Ordinary key conn h r now draws where
  connect hreq := absurd hreq hconnect
  relayAlloc hreq := absurd hreq hrelay
  lookup hreq := absurd hreq hlookup

/-- A message of a known type that does not decode. -/
theorem malformed_outcome (hordinary : s.Ordinary key conn h r now draws)
    (ha : s.malformed key h.txnId = some (res, s')) :
    res.close = false ∧ s.Outcome key conn h r now draws res.out := by
  rw [(malformed_eq ha).1]
  exact ⟨rfl, .failed hordinary⟩

/-- The registry's verdict decides between an error and a reply. -/
theorem verdict_outcome {reg : Registry} {code : ErrorCode} {f : Framed} {type : MsgType}
    {bs : Bytes} (hordinary : s.Ordinary key conn h r now draws)
    (hsaid : f.Says key type h.txnId bs)
    (htype : PlainType type)
    (ha : (if code ≠ .none then s.answer reg [error key h.txnId code] else s.answer reg [f]) =
      some (res, s')) :
    res.close = false ∧ s.Outcome key conn h r now draws res.out := by
  split at ha
  · rw [(answer_eq ha).1]
    exact ⟨rfl, .failed hordinary⟩
  · rw [(answer_eq ha).1]
    exact ⟨rfl, .done hordinary hsaid htype⟩

theorem onRegister_outcome (hreq : Request.ofType h.type = .register)
    (ha : s.onRegister P key conn h r now = some (res, s')) :
    res.close = false ∧ s.Outcome key conn h r now draws res.out := by
  have hordinary : s.Ordinary key conn h r now draws :=
    ordinary_of_request (by rw [hreq]; decide) (by rw [hreq]; decide) (by rw [hreq]; decide)
  unfold onRegister at ha
  cases hm : (Register.decode h).run r with
  | none => rw [hm] at ha; exact malformed_outcome hordinary ha
  | some x =>
      rw [hm] at ha
      dsimp only at ha
      have hlen := length_endpoint_le (s.registry.registerEntry P x.1 conn.peer key now).1.srflx
      refine verdict_outcome hordinary
        (reply_said (fun w => (((Wrote.refl w).array _).endpoint _).u16 _) ?_) (by decide) ha
      simp only [List.nil_append, List.length_append, Vector.length_toList, length_beBytes]
      omega

theorem keepaliveOk_said :
    (reply key .keepaliveOk h.txnId (KeepaliveOk.encode { srflx := conn.peer })).Says key
      .keepaliveOk h.txnId ([] ++ conn.peer.val.image) := by
  refine reply_said (fun w => (Wrote.refl w).endpoint _) ?_
  have hlen := length_endpoint_le conn.peer.val
  rw [List.nil_append]
  omega

theorem onKeepalive_outcome (hreq : Request.ofType h.type = .keepalive)
    (ha : s.onKeepalive key conn h r now = some (res, s')) :
    res.close = false ∧ s.Outcome key conn h r now draws res.out := by
  have hordinary : s.Ordinary key conn h r now draws :=
    ordinary_of_request (by rw [hreq]; decide) (by rw [hreq]; decide) (by rw [hreq]; decide)
  unfold onKeepalive at ha
  dsimp only at ha
  split at ha
  · rw [(answer_eq ha).1]
    exact ⟨rfl, .done hordinary keepaliveOk_said (by decide)⟩
  · cases hm : DevRef.decode.run r with
    | none => rw [hm] at ha; exact malformed_outcome hordinary ha
    | some x =>
        rw [hm] at ha
        exact verdict_outcome hordinary keepaliveOk_said (by decide) ha

theorem onUpdate_outcome (hreq : Request.ofType h.type = .update)
    (ha : s.onUpdate key h r now = some (res, s')) :
    res.close = false ∧ s.Outcome key conn h r now draws res.out := by
  have hordinary : s.Ordinary key conn h r now draws :=
    ordinary_of_request (by rw [hreq]; decide) (by rw [hreq]; decide) (by rw [hreq]; decide)
  unfold onUpdate at ha
  cases hm : Update.decode.run r with
  | none => rw [hm] at ha; exact malformed_outcome hordinary ha
  | some x =>
      rw [hm] at ha
      exact verdict_outcome hordinary replyEmpty_said (by decide) ha

theorem onUnregister_outcome (hreq : Request.ofType h.type = .unregister)
    (ha : s.onUnregister key h r = some (res, s')) :
    res.close = false ∧ s.Outcome key conn h r now draws res.out := by
  have hordinary : s.Ordinary key conn h r now draws :=
    ordinary_of_request (by rw [hreq]; decide) (by rw [hreq]; decide) (by rw [hreq]; decide)
  unfold onUnregister at ha
  cases hm : DevRef.decode.run r with
  | none => rw [hm] at ha; exact malformed_outcome hordinary ha
  | some x =>
      rw [hm] at ha
      exact verdict_outcome hordinary replyEmpty_said (by decide) ha

theorem onLookup_outcome (hreq : Request.ofType h.type = .lookup)
    (ha : s.onLookup key h r now draws = some (res, s')) :
    res.close = false ∧ s.Outcome key conn h r now draws res.out := by
  unfold onLookup at ha
  cases hm : (Lookup.decode h).run r with
  | none =>
      rw [hm] at ha
      refine malformed_outcome ⟨fun hc => ?_, fun hc => ?_, fun _ => hm⟩ ha
      · cases hc.symm.trans hreq
      · cases hc.symm.trans hreq
  | some x =>
      rw [hm] at ha
      obtain ⟨found, hfound, ha⟩ := Option.bind_eq_some_iff.mp ha
      rw [(answer_eq ha).1]
      exact ⟨rfl, .sampled hreq hm hfound⟩

theorem onResolve_outcome (hreq : Request.ofType h.type = .resolve)
    (ha : s.onResolve key h r now = some (res, s')) :
    res.close = false ∧ s.Outcome key conn h r now draws res.out := by
  have hordinary : s.Ordinary key conn h r now draws :=
    ordinary_of_request (by rw [hreq]; decide) (by rw [hreq]; decide) (by rw [hreq]; decide)
  unfold onResolve at ha
  cases hm : Resolve.decode.run r with
  | none => rw [hm] at ha; exact malformed_outcome hordinary ha
  | some x =>
      rw [hm] at ha
      rw [(answer_eq ha).1]
      cases s.registry.resolve x.1.devId now with
      | none =>
          have hsaid : (reply key .resolveOk h.txnId (ResolveOk.encode {})).Says key .resolveOk
              h.txnId ([] ++ [0]) := reply_said (fun w => (Wrote.refl w).u8 0) (by decide)
          exact ⟨rfl, .done hordinary hsaid (by decide)⟩
      | some y =>
          obtain ⟨topic, entry⟩ := y
          have hlen := entry.length_image_le
          have hsaid : (reply key .resolveOk h.txnId (ResolveOk.encode
              { found := true, topic := topic, entry := entry })).Says key .resolveOk h.txnId
              ([] ++ [1] ++ topic.toList ++ entry.image) := by
            refine reply_said (fun w => entry.wrote (((Wrote.refl w).u8 1).array topic)) ?_
            simp only [List.nil_append, List.length_append, List.length_cons, List.length_nil,
              Vector.length_toList]
            omega
          exact ⟨rfl, .done hordinary hsaid (by decide)⟩

theorem length_listFrom_le (reg : Registry) (limit : Nat) (l : List (Σ _ : Nat, TopicId)) :
    (reg.listFrom limit l).1.length ≤ limit := by
  fun_induction Registry.listFrom reg limit l with
  | case1 => exact Nat.zero_le _
  | case2 => exact Nat.zero_le _
  | case3 limit e rest hnone ih => exact ih
  | case4 limit e rest t ht hlisted out next hrest ih =>
      rw [hrest] at ih
      exact Nat.succ_le_succ ih
  | case5 limit e rest t ht hlisted ih => exact ih

theorem onTopics_outcome (hreq : Request.ofType h.type = .topics)
    (ha : s.onTopics key h r now = some (res, s')) :
    res.close = false ∧ s.Outcome key conn h r now draws res.out := by
  have hordinary : s.Ordinary key conn h r now draws :=
    ordinary_of_request (by rw [hreq]; decide) (by rw [hreq]; decide) (by rw [hreq]; decide)
  unfold onTopics at ha
  cases hm : Topics.decode.run r with
  | none => rw [hm] at ha; exact malformed_outcome hordinary ha
  | some x =>
      rw [hm] at ha
      obtain ⟨hpos, hlimit⟩ := Topics.decode_spec (m := x.1) hm
      have hcount : (s.registry.listTopics x.1.cursor x.1.limit now).1.1.length ≤ x.1.limit := by
        unfold Registry.listTopics
        dsimp only
        rw [if_neg (Nat.pos_iff_ne_zero.mp hpos)]
        exact length_listFrom_le _ _ _
      have hsaid : ∀ m : TopicsOk, m.topics.length ≤ x.1.limit →
          (reply key .topicsOk h.txnId m.encode).Says key .topicsOk h.txnId m.image := by
        intro m hle
        have htake := List.length_take_le' 0xFFFF m.topics
        refine reply_said m.wrote ?_
        rw [m.length_image]
        omega
      rw [(answer_eq ha).1]
      exact ⟨rfl, .done hordinary (hsaid _ hcount) (by decide)⟩

theorem onStats_outcome (hreq : Request.ofType h.type = .stats)
    (ha : s.onStats key h now = some (res, s')) :
    res.close = false ∧ s.Outcome key conn h r now draws res.out := by
  have hordinary : s.Ordinary key conn h r now draws :=
    ordinary_of_request (by rw [hreq]; decide) (by rw [hreq]; decide) (by rw [hreq]; decide)
  have hsaid : ∀ m : StatsOk, (reply key .statsOk h.txnId m.encode).Says key .statsOk h.txnId
      ([] ++ m.values.flatMap (beBytes 8)) := by
    intro m
    refine reply_said (fun w => Wrote.foldl (fun v h => h.u64 v) (Wrote.refl w) m.values) ?_
    rw [List.nil_append, List.length_flatMap, List.map_congr_left fun v _ => length_beBytes 8 v,
      List.map_const', List.sum_replicate_nat]
    show 14 * 8 ≤ 32000
    decide
  unfold onStats at ha
  rw [(answer_eq ha).1]
  exact ⟨rfl, .done hordinary (hsaid _) (by decide)⟩

theorem onConnect_outcome (hreq : Request.ofType h.type = .connect)
    (ha : s.onConnect key h r = some (res, s')) :
    res.close = false ∧ s.Outcome key conn h r now draws res.out := by
  have hrest : ∀ (hc : ∀ {m : Connect} {r' : Reader}, Connect.decode.run r = some (m, r') →
      (s.registry.connectTarget m.fromDev m.toDev key).1 = none),
      s.Ordinary key conn h r now draws := by
    intro hc
    refine ⟨fun _ => hc, fun hr => ?_, fun hr => ?_⟩
    · cases hr.symm.trans hreq
    · cases hr.symm.trans hreq
  unfold onConnect at ha
  cases hm : Connect.decode.run r with
  | none =>
      rw [hm] at ha
      exact malformed_outcome (hrest fun hc => by cases hm.symm.trans hc) ha
  | some x =>
      rw [hm] at ha
      rcases ht : s.registry.connectTarget x.1.fromDev x.1.toDev key with ⟨- | target, reg⟩
      · simp only [ht] at ha
        rw [(answer_eq ha).1]
        refine ⟨rfl, .failed (hrest fun hc => ?_)⟩
        cases hm.symm.trans hc
        rw [ht]
      · simp only [ht] at ha
        rw [(answer_eq ha).1]
        exact ⟨rfl, .introduced hreq hm (by rw [ht])⟩

theorem onRelayAlloc_outcome (hreq : Request.ofType h.type = .relayAlloc)
    (ha : s.onRelayAlloc key conn h r now draws = some (res, s')) :
    res.close = false ∧ s.Outcome key conn h r now draws res.out := by
  have hrest : ∀ (hc : ∀ {m : RelayAlloc} {r' : Reader}, RelayAlloc.decode.run r = some (m, r') →
      ∀ {g : Registry.RelayGrant} {reg : Registry},
        s.registry.relayAlloc m.fromDev m.peerDev m.kind key conn.peer now draws.relay =
          some (g, reg) → g.code ≠ .none), s.Ordinary key conn h r now draws := by
    intro hc
    refine ⟨fun hr => ?_, fun _ => hc, fun hr => ?_⟩
    · cases hr.symm.trans hreq
    · cases hr.symm.trans hreq
  unfold onRelayAlloc at ha
  cases hm : RelayAlloc.decode.run r with
  | none =>
      rw [hm] at ha
      exact malformed_outcome (hrest fun hc => by cases hm.symm.trans hc) ha
  | some x =>
      rw [hm] at ha
      obtain ⟨⟨g, reg⟩, hg, ha⟩ := Option.bind_eq_some_iff.mp ha
      dsimp only at ha
      split at ha
      · rename_i hcode
        rw [(answer_eq ha).1]
        refine ⟨rfl, .failed (hrest fun hc g' reg' hg' => ?_)⟩
        cases hm.symm.trans hc
        cases hg.symm.trans hg'
        exact hcode
      · rename_i hcode
        rw [(answer_eq ha).1]
        exact ⟨rfl, .granted hreq hm hg (not_not.mp hcode)⟩

/-- What a message that reaches the `switch` comes to. -/
theorem dispatch_outcome (hd : s.dispatch P key conn h r now draws = some (res, s')) :
    res.close = false ∧ s.Outcome key conn h r now draws res.out := by
  unfold dispatch at hd
  cases hreq : Request.ofType h.type with
  | register => rw [hreq] at hd; exact onRegister_outcome hreq hd
  | keepalive => rw [hreq] at hd; exact onKeepalive_outcome hreq hd
  | update => rw [hreq] at hd; exact onUpdate_outcome hreq hd
  | unregister => rw [hreq] at hd; exact onUnregister_outcome hreq hd
  | lookup => rw [hreq] at hd; exact onLookup_outcome hreq hd
  | resolve => rw [hreq] at hd; exact onResolve_outcome hreq hd
  | topics => rw [hreq] at hd; exact onTopics_outcome hreq hd
  | stats => rw [hreq] at hd; exact onStats_outcome hreq hd
  | connect => rw [hreq] at hd; exact onConnect_outcome hreq hd
  | relayAlloc => rw [hreq] at hd; exact onRelayAlloc_outcome hreq hd
  | unsupported =>
      rw [hreq] at hd
      rw [(answer_eq hd).1]
      exact ⟨rfl, .failed (ordinary_of_request (by rw [hreq]; decide) (by rw [hreq]; decide)
        (by rw [hreq]; decide))⟩

end Handlers

end ControlService

end UConnect.Server
