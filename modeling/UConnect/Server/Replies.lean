/-
  Server/Replies.lean --- every request gets its reply, and the reply fits.

  Source: server/control_service.cpp, `on_message`, and src/wire/messages.cpp,
  `PeerEntry::encoded_size`.

  A message that does not close its connection is answered by one frame with its
  transaction; an introduction goes to the other side instead, and a relay is
  offered to the peer as well.  The sample of a lookup is cut where the frame is
  full.

  The offer of a relay the pair already has goes to the connection the binding
  was made with, which is not the peer's any more once another connection has
  taken the record over.  `StaleOffer` is that case and no other.
-/
import UConnect.Server.Outcomes
import UConnect.Server.Samples

set_option autoImplicit false

namespace UConnect.Server

open UConnect UConnect.Foundation UConnect.Crypto UConnect.Wire

/-! ## Reading a frame

What can be read back of a frame: its transaction, its type and its body. -/

/-- The frame can be sent, and is not what stands for one that cannot. -/
structure Framed.Sendable (f : Framed) : Prop where
  nonempty : f.bytes ≠ []
  length_le : f.bytes.length ≤ kMaxFrame + 2
  not_tooLong : ∀ txn, f.bytes ≠ frame (tooLong txn)

/-- The message in the frame has this transaction. -/
def Framed.HasTxn (f : Framed) (txn : Nat) : Prop :=
  ∃ m h r, f.bytes = frame m ∧ Header.decode { rest := m } ctlVersion = (some h, r) ∧
    h.txnId = txn

/-- The message in the frame has this type and transaction, and `d` reads its
body, to the end, as `v`. -/
def Framed.Carries {α : Type} (f : Framed) (type : MsgType) (txn : Nat) (d : Decoder α) (v : α) :
    Prop :=
  ∃ m r, f.bytes = frame m ∧
    Header.decode { rest := m } ctlVersion =
      (some { type := type, version := ctlVersion, txnId := txn }, r) ∧
    d.run r = some (v, { rest := [] })

section Frames

variable {f : Framed} {dst : ConnKey} {type : MsgType} {txn : Nat} {bs : Bytes}

theorem Framed.Says.sendable (h : f.Says dst type txn bs)
    (hne : type = .error → bs ≠ tooLongBody.image) : f.Sendable where
  nonempty := h.length_le.1
  length_le := h.length_le.2
  not_tooLong _ := h.frame_ne hne

theorem error_sendable (dst : ConnKey) (txn : Nat) (code : ErrorCode) :
    (error dst txn code).Sendable :=
  (error_said code).sendable fun _ => errorImage_ne code

theorem Framed.Says.hasTxn (h : f.Says dst type txn bs) (htype : classify type ≠ .unknown)
    (htxn : txn < 2 ^ 32) : f.HasTxn txn :=
  ⟨_, _, _, h.bytes_eq, Header.decode_image rfl htype htxn bs, rfl⟩

theorem Framed.Says.carries {α : Type} {d : Decoder α} {v : α} (h : f.Says dst type txn bs)
    (htype : classify type ≠ .unknown) (htxn : txn < 2 ^ 32) (hreads : d.Reads bs v) :
    f.Carries type txn d v := by
  have hwhole := hreads.whole []
  rw [List.append_nil] at hwhole
  exact ⟨_, _, h.bytes_eq, Header.decode_image rfl htype htxn bs, hwhole⟩

end Frames

/-! ## What is to be answered

The property, for a message and the frames it led to. -/

namespace ControlService

/-- A Connect the registry accepts. -/
def Introduces (s : ControlService) (key : ConnKey) (h : Header) (r : Reader) (m : Connect) :
    Prop :=
  Request.ofType h.type = .connect ∧ (∃ r', Connect.decode.run r = some (m, r')) ∧
    (s.registry.connectTarget m.fromDev m.toDev key).1.isSome

/-- A RelayAlloc the registry accepts. -/
def Grants (s : ControlService) (key : ConnKey) (conn : Conn) (h : Header) (r : Reader)
    (now : Instant) (draws : Draws) (m : RelayAlloc) : Prop :=
  Request.ofType h.type = .relayAlloc ∧ (∃ r', RelayAlloc.decode.run r = some (m, r')) ∧
    ∃ g reg, s.registry.relayAlloc m.fromDev m.peerDev m.kind key conn.peer now draws.relay =
      some (g, reg) ∧ g.code = .none

/-- The reply to a lookup with the first `n` entries of a sample. -/
def page (m : Lookup) (res : Registry.LookupResult) (n : Nat) : LookupOk :=
  { id := m.id, mode := res.mode, total := res.total, entries := res.entries.take n }

/-- The frames a message is to be answered with. -/
structure Answered (s : ControlService) (key : ConnKey) (conn : Conn) (h : Header) (r : Reader)
    (now : Instant) (draws : Draws) (out : List Framed) : Prop where
  sendable : ∀ f ∈ out, f.Sendable
  replied : (∀ m, ¬ s.Introduces key h r m) → (∀ m, ¬ s.Grants key conn h r now draws m) →
    ∃ f, out = [f] ∧ f.dst = key ∧ f.HasTxn h.txnId
  introduced : ∀ m, s.Introduces key h r m →
    ∃ f t, out = [f] ∧ s.registry.byDev.lookup m.toDev = some t ∧ f.dst = t.owner ∧
      f.Carries .relayed 0 Relayed.decode { fromDev := m.fromDev, payload := m.payload }
  offered : ∀ m, s.Grants key conn h r now draws m →
    ∃ ok offer p, out = [ok, offer] ∧ ok.dst = key ∧ ok.HasTxn h.txnId ∧
      s.registry.byDev.lookup m.peerDev = some p ∧ offer.dst = p.owner ∧
      ∃ v, offer.Carries .relayOffer 0 RelayOffer.decode v
  sampled : ∀ m r', Request.ofType h.type = .lookup → (Lookup.decode h).run r = some (m, r') →
    ∃ res f n, (s.registry.lookup m.id m.max m.wantMeta now draws.sampler).1 = some res ∧
      out = [f] ∧ n ≤ res.entries.length ∧
      f.Carries .lookupOk h.txnId LookupOk.decode (page m res n) ∧
      ∀ n', n < n' → n' ≤ res.entries.length →
        message .lookupOk h.txnId (page m res n').encode = []

/-- A RelayAlloc for which the pair has a binding that another connection than
the peer's was bound with. -/
def StaleOffer (s : ControlService) (key : ConnKey) (h : Header) (r : Reader) : Prop :=
  ∃ m r' f p id b side, Request.ofType h.type = .relayAlloc ∧
    RelayAlloc.decode.run r = some (m, r') ∧ s.registry.cfg.relayEnabled = true ∧
    s.registry.byDev.lookup m.fromDev = some f ∧ s.registry.byDev.lookup m.peerDev = some p ∧
    f.owner = key ∧ f.topicId = p.topicId ∧
    s.registry.findBinding m.fromDev m.peerDev m.kind = some (⟨id, b⟩, side) ∧
    b.exhausted = false ∧ b.owner (1 - side) ≠ p.owner

/-! ## Samples

The entries of a lookup, cut where the next one would not fit. -/

/-- The entry of a record goes over the wire as it is. -/
theorem toEntry_wf {r : Registry} {e : Entry} (h : Stored e) (wantMeta : Bool) (now : Instant) :
    (r.toEntry e wantMeta now).Wf ∧
      (r.toEntry e wantMeta now).capped = r.toEntry e wantMeta now := by
  have hage : min ((now - e.lastSeen).toNat / 1000000000) 0xFFFF < 2 ^ 16 := by omega
  have hsrflx : ({ kind := .srflx, ep := e.boundAddr } : Candidate).normal =
      { kind := .srflx, ep := e.boundAddr } := by
    rw [Candidate.normal, h.addr]
  refine ⟨⟨hage, fun c hc => ?_⟩, ?_⟩
  · rcases List.mem_cons.mp (List.mem_of_mem_take hc) with rfl | hc
    · exact hsrflx
    · exact h.cands c hc
  · have hmeta : (if wantMeta then e.«meta» else []).length ≤ kMaxMeta := by
      split
      · exact h.meta_le
      · exact Nat.zero_le _
    unfold PeerEntry.capped Registry.toEntry
    rw [List.take_take, Nat.min_self, List.take_of_length_le hmeta]

/-- A sample has at most a hundred entries, and the number of peers fits its
field. -/
theorem lookup_bounds {r : Registry} {topic : TopicId} {max : Nat} {wantMeta : Bool}
    {now : Instant} {s : Registry.Sampler} {res : Registry.LookupResult}
    (hres : (r.lookup topic max wantMeta now s).1 = some res) :
    res.total < 2 ^ 16 ∧ res.entries.length ≤ kLookupMax := by
  unfold Registry.lookup at hres
  dsimp only at hres
  split at hres
  · cases hres
    exact ⟨by decide, Nat.zero_le _⟩
  · obtain ⟨picked, hpicked, rfl⟩ := Option.map_eq_some_iff.mp hres
    have hpick := Registry.length_pick_le hpicked
    refine ⟨by dsimp only; omega, ?_⟩
    rw [List.length_map, List.length_append, ← List.length_eq_length_filter_add]
    refine Nat.le_trans (List.length_filterMap_le _ _) (Nat.le_trans hpick ?_)
    refine Nat.le_trans (Nat.min_le_left _ _) ?_
    generalize (if max = 0 then kLookupDefault else max) = asked
    split <;> omega

/-- The bytes of a list of entries. -/
def entriesSize (es : List PeerEntry) : Nat := (es.flatMap PeerEntry.image).length

theorem entriesSize_cons (e : PeerEntry) (es : List PeerEntry) :
    entriesSize (e :: es) = e.image.length + entriesSize es := by
  rw [entriesSize, List.flatMap_cons, List.length_append]
  rfl

/-- The loop that trims a sample stops where the frame is full. -/
theorem fitting_spec (es : List PeerEntry) {bytes : Nat} (hbytes : bytes ≤ kMaxFrame) :
    fitting bytes es ≤ es.length ∧ bytes + entriesSize (es.take (fitting bytes es)) ≤ kMaxFrame ∧
      ∀ n, fitting bytes es < n → n ≤ es.length → kMaxFrame < bytes + entriesSize (es.take n) := by
  induction es generalizing bytes with
  | nil =>
      refine ⟨Nat.le_refl _, hbytes, fun n hlt hle => ?_⟩
      exact absurd hle (Nat.not_le.mpr hlt)
  | cons e es ih =>
      have hsize := e.encodedSize_eq
      unfold fitting
      split
      · rename_i hover
        refine ⟨Nat.zero_le _, hbytes, fun n hlt _ => ?_⟩
        obtain ⟨n, rfl⟩ := Nat.exists_eq_succ_of_ne_zero (Nat.pos_iff_ne_zero.mp hlt)
        rw [List.take_succ_cons, entriesSize_cons]
        omega
      · rename_i hroom
        obtain ⟨hle, hfits, hmost⟩ := ih (Nat.not_lt.mp hroom)
        rw [Nat.add_comm 1]
        refine ⟨Nat.succ_le_succ hle, ?_, fun n hlt hn => ?_⟩
        · rw [List.take_succ_cons, entriesSize_cons]
          omega
        · obtain ⟨n, rfl⟩ := Nat.exists_eq_succ_of_ne_zero (Nat.ne_of_gt (Nat.zero_lt_of_lt hlt))
          have hlater := hmost n (Nat.lt_of_succ_lt_succ hlt) (Nat.le_of_succ_le_succ hn)
          rw [List.take_succ_cons, entriesSize_cons]
          omega

section Pages

variable {s : ControlService} {m : Lookup} {res : Registry.LookupResult} {now : Instant}
  {sampler : Registry.Sampler}

theorem page_size (hle : res.entries.length ≤ kLookupMax) (n : Nat) :
    Header.kSize + (page m res n).image.length = 28 + entriesSize (res.entries.take n) := by
  have htake : (res.entries.take n).take kLookupMax = res.entries.take n := by
    refine List.take_of_length_le ?_
    rw [List.length_take]
    omega
  have hk : Header.kSize = 8 := rfl
  rw [LookupOk.length_image]
  show Header.kSize + (20 + entriesSize ((res.entries.take n).take kLookupMax)) = _
  rw [htake]
  omega

/-- A page of stored records is read back as it is. -/
theorem page_reads (hstored : AllStored s.registry)
    (hres : (s.registry.lookup m.id m.max m.wantMeta now sampler).1 = some res) (n : Nat) :
    LookupOk.decode.Reads (page m res n).image (page m res n) := by
  obtain ⟨htotal, hle⟩ := lookup_bounds hres
  have hentry : ∀ e ∈ res.entries.take n, e.Wf ∧ e.capped = id e := by
    intro e he
    obtain ⟨dev, x, hx, rfl⟩ := Registry.lookup_entry hres (List.mem_of_mem_take he)
    exact toEntry_wf (hstored dev x hx) m.wantMeta now
  have hreads := LookupOk.reads (m := page m res n) htotal fun e he => (hentry e he).1
  have hcapped : (page m res n).capped = page m res n := by
    unfold LookupOk.capped page
    dsimp only
    rw [List.take_of_length_le (by rw [List.length_take]; omega),
      List.map_congr_left fun e he => (hentry e he).2, List.map_id]
  rwa [hcapped] at hreads

/-- The reply to a lookup fits. -/
theorem page_said (hres : (s.registry.lookup m.id m.max m.wantMeta now sampler).1 = some res)
    (key : ConnKey) (txn : Nat) :
    (reply key .lookupOk txn (page m res (fitting 28 res.entries)).encode).Says key .lookupOk txn
      (page m res (fitting 28 res.entries)).image := by
  obtain ⟨-, hle⟩ := lookup_bounds hres
  obtain ⟨-, hfits, -⟩ := fitting_spec res.entries (show 28 ≤ kMaxFrame by decide)
  exact reply_said_of_fits (page m res (fitting 28 res.entries)).wrote
    (Nat.le_trans (Nat.le_of_eq (page_size hle _)) hfits)

/-- It carries as much of the sample as fits. -/
theorem page_answered (hstored : AllStored s.registry)
    (hres : (s.registry.lookup m.id m.max m.wantMeta now sampler).1 = some res) (key : ConnKey)
    {txn : Nat} (htxn : txn < 2 ^ 32) :
    (reply key .lookupOk txn (page m res (fitting 28 res.entries)).encode).Carries .lookupOk txn
        LookupOk.decode (page m res (fitting 28 res.entries)) ∧
      ∀ n, fitting 28 res.entries < n → n ≤ res.entries.length →
        message .lookupOk txn (page m res n).encode = [] := by
  obtain ⟨-, hle⟩ := lookup_bounds hres
  obtain ⟨-, -, hmost⟩ := fitting_spec res.entries (show 28 ≤ kMaxFrame by decide)
  refine ⟨(page_said hres key txn).carries (by decide) htxn (page_reads hstored hres _),
    fun n hlt hn => ?_⟩
  rw [message_eq .lookupOk txn 0 (page m res n).wrote, page_size hle, if_neg]
  exact Nat.not_le.mpr (hmost n hlt hn)

end Pages

/-! ## Introductions and offers

The frames that go to another connection, and whom they reach. -/

theorem relayed_carries {r r' : Reader} {m : Connect} (hm : Connect.decode.run r = some (m, r'))
    (target : ConnKey) :
    (∃ bs, (reply target .relayed 0
        (Relayed.encode { fromDev := m.fromDev, payload := m.payload })).Says target .relayed 0 bs) ∧
      (reply target .relayed 0
        (Relayed.encode { fromDev := m.fromDev, payload := m.payload })).Carries .relayed 0
        Relayed.decode { fromDev := m.fromDev, payload := m.payload } := by
  have hlen := length_blobImage_le kMaxRelayPayload m.payload
  have hcap : kMaxRelayPayload = 512 := rfl
  have hsaid : (reply target .relayed 0 (Relayed.encode
      { fromDev := m.fromDev, payload := m.payload })).Says target .relayed 0
      ([] ++ m.fromDev.toList ++ blobImage kMaxRelayPayload m.payload) := by
    refine reply_said
      (fun w => ((Wrote.refl w).array m.fromDev).blob m.payload kMaxRelayPayload) ?_
    rw [List.nil_append, List.length_append, Vector.length_toList]
    omega
  have hreads := Relayed.reads { fromDev := m.fromDev, payload := m.payload }
  rw [List.take_of_length_le (Connect.decode_spec hm)] at hreads
  exact ⟨⟨_, hsaid⟩, hsaid.carries (by decide) (by decide) hreads⟩

/-- An offer, with what fits of its id. -/
theorem offer_carries (m : RelayOffer) (dst : ConnKey) :
    (∃ bs, (reply dst .relayOffer 0 m.encode).Says dst .relayOffer 0 bs) ∧
      (reply dst .relayOffer 0 m.encode).Carries .relayOffer 0 RelayOffer.decode
        { m with relayId := m.relayId % 2 ^ 64 } := by
  have hlen : m.image.length ≤ 32000 := by
    simp only [RelayOffer.image, List.length_append, Vector.length_toList, length_beBytes,
      List.length_cons, List.length_nil]
    omega
  have hsaid : (reply dst .relayOffer 0 m.encode).Says dst .relayOffer 0 m.image :=
    reply_said m.wrote hlen
  exact ⟨⟨_, hsaid⟩, hsaid.carries (by decide) (by decide) m.reads⟩

theorem relayAllocOk_said (m : RelayAllocOk) (key : ConnKey) (txn : Nat) :
    ∃ bs, (reply key .relayAllocOk txn m.encode).Says key .relayAllocOk txn bs := by
  refine ⟨_, reply_said
    (fun w => ((((Wrote.refl w).u64 m.relayId).array m.token).u8 m.kind.code).u32 m.maxKib) ?_⟩
  simp only [List.nil_append, List.length_append, Vector.length_toList, length_beBytes,
    List.length_cons, List.length_nil]
  omega

/-! ## Every message is answered

A case for each handler. -/

/-- An allocation that is granted was asked for with relays on. -/
theorem relayEnabled_of_granted {r reg : Registry} {src peer : DevId} {kind : RelayKind}
    {owner : ConnKey} {addr : Endpoint} {now : Instant} {draws : Registry.RelayDraws}
    {g : Registry.RelayGrant}
    (hg : r.relayAlloc src peer kind owner addr now draws = some (g, reg)) (hcode : g.code = .none) :
    r.cfg.relayEnabled = true := by
  cases hon : r.cfg.relayEnabled with
  | true => rfl
  | false =>
      unfold Registry.relayAlloc at hg
      rw [hon, Bool.not_false, if_pos rfl] at hg
      cases hg
      cases hcode

/-- The registry answers with the binding the pair has. -/
theorem relayAlloc_of_found {r : Registry} {src peer : DevId} {kind : RelayKind}
    (addr : Endpoint) (now : Instant) (draws : Registry.RelayDraws) {f p : Entry} {id : RelayId}
    {b : Relay} {side : Fin 2} (hon : r.cfg.relayEnabled = true)
    (hf : r.byDev.lookup src = some f) (hp : r.byDev.lookup peer = some p)
    (htopic : f.topicId = p.topicId)
    (hfind : r.findBinding src peer kind = some (⟨id, b⟩, side)) (hgood : b.exhausted = false) :
    ∃ g reg, r.relayAlloc src peer kind f.owner addr now draws = some (g, reg) ∧
      g.code = .none ∧ g.peerOwner = b.owner (1 - side) := by
  unfold Registry.relayAlloc
  simp only [hon, Bool.not_true, Bool.false_eq_true, if_false, hf, hp, ne_eq, not_true_eq_false,
    htopic, hfind, hgood]
  exact ⟨_, _, rfl, rfl, rfl⟩

section Answers

variable {P : Primitives} {s s' : ControlService} {key : ConnKey} {conn : Conn} {h : Header}
  {r : Reader} {now : Instant} {draws : Draws} {res : Result} {out : List Framed}

/-- An ordinary message is to get one reply and nothing else. -/
theorem Ordinary.answered (ho : s.Ordinary key conn h r now draws) {f : Framed}
    (hsend : f.Sendable) (hdst : f.dst = key) (htxn : f.HasTxn h.txnId) :
    s.Answered key conn h r now draws [f] where
  sendable g hg := List.mem_singleton.mp hg ▸ hsend
  replied _ _ := ⟨f, rfl, hdst, htxn⟩
  introduced m := by
    rintro ⟨hreq, ⟨r', hm⟩, hsome⟩
    rw [ho.connect hreq hm] at hsome
    cases hsome
  offered m := by
    rintro ⟨hreq, ⟨r', hm⟩, g, reg, hg, hcode⟩
    exact absurd hcode (ho.relayAlloc hreq hm hg)
  sampled m r' hreq hm := by
    rw [ho.lookup hreq] at hm
    cases hm

/-- Every message is answered as it is to be, unless it makes a stale offer. -/
theorem Outcome.answered (hout : s.Outcome key conn h r now draws out)
    (hstored : AllStored s.registry) (htxn : h.txnId < 2 ^ 32) (hfresh : ¬ s.StaleOffer key h r) :
    s.Answered key conn h r now draws out := by
  cases hout with
  | failed ho =>
      exact ho.answered (error_sendable _ _ _) rfl ((error_said _).hasTxn (by decide) htxn)
  | done ho hsaid htype =>
      exact ho.answered (hsaid.sendable fun herr => absurd herr htype.2.1) hsaid.dst_eq
        (hsaid.hasTxn htype.1 htxn)
  | @sampled m r' found hreq hm hres =>
      obtain ⟨hcarries, hmost⟩ := page_answered hstored hres key htxn
      have hsaid := page_said hres key h.txnId
      have hsend := hsaid.sendable fun herr => absurd herr (by decide)
      have hle := (fitting_spec found.entries (show 28 ≤ kMaxFrame by decide)).1
      refine ⟨fun g hg => List.mem_singleton.mp hg ▸ hsend,
        fun _ _ => ⟨_, rfl, rfl, hsaid.hasTxn (by decide) htxn⟩, ?_, ?_, ?_⟩
      · rintro m' ⟨hreq', -⟩
        cases hreq.symm.trans hreq'
      · rintro m' ⟨hreq', -⟩
        cases hreq.symm.trans hreq'
      · intro m' r'' _ hm'
        cases hm.symm.trans hm'
        exact ⟨found, _, fitting 28 found.entries, hres, rfl, hle, hcarries, hmost⟩
  | @introduced m r' target hreq hm htarget =>
      obtain ⟨f, t, -, ht, -, -, rfl⟩ := Registry.connectTarget_some htarget
      obtain ⟨⟨bs, hsaid⟩, hcarries⟩ := relayed_carries hm t.owner
      have hsend := hsaid.sendable fun herr => absurd herr (by decide)
      refine ⟨fun g hg => List.mem_singleton.mp hg ▸ hsend, ?_, ?_, ?_, ?_⟩
      · intro hnone _
        exact absurd ⟨hreq, ⟨r', hm⟩, by rw [htarget]; rfl⟩ (hnone m)
      · rintro m' ⟨-, ⟨r'', hm'⟩, -⟩
        cases hm.symm.trans hm'
        exact ⟨_, t, rfl, ht, rfl, hcarries⟩
      · rintro m' ⟨hreq', -⟩
        cases hreq.symm.trans hreq'
      · intro m' r'' hreq' _
        cases hreq.symm.trans hreq'
  | @granted m r' g reg hreq hm hg hcode =>
      obtain ⟨bs, hsaid⟩ := relayAllocOk_said
        { relayId := g.id, token := g.token, kind := m.kind, maxKib := g.maxKib } key h.txnId
      obtain ⟨⟨bs', hsaid'⟩, hcarries⟩ := offer_carries
        { relayId := g.id, token := g.peerToken, kind := m.kind, fromDev := m.fromDev
          topic := g.topic } g.peerOwner
      have hpeer : ∃ p, s.registry.byDev.lookup m.peerDev = some p ∧ g.peerOwner = p.owner := by
        have hon := relayEnabled_of_granted hg hcode
        cases Registry.allocation hg with
        | barred hbad => exact absurd hcode hbad
        | full => cases hcode
        | @found f p id b side hf hp howner htopic hfind hgood =>
            refine ⟨p, hp, Classical.not_not.mp fun hne => hfresh ?_⟩
            exact ⟨m, r', f, p, id, b, side, hreq, hm, hon, hf, hp, howner, htopic, hfind, hgood,
              hne⟩
        | @made f p id hf hp => exact ⟨p, hp, rfl⟩
      obtain ⟨p, hp, howner⟩ := hpeer
      refine ⟨?_, ?_, ?_, ?_, ?_⟩
      · intro x hx
        rcases List.mem_cons.mp hx with rfl | hx
        · exact hsaid.sendable fun herr => absurd herr (by decide)
        · rw [List.mem_singleton.mp hx]
          exact hsaid'.sendable fun herr => absurd herr (by decide)
      · intro _ hnone
        exact absurd ⟨hreq, ⟨r', hm⟩, g, reg, hg, hcode⟩ (hnone m)
      · rintro m' ⟨hreq', -⟩
        cases hreq.symm.trans hreq'
      · rintro m' ⟨-, ⟨r'', hm'⟩, -⟩
        cases hm.symm.trans hm'
        exact ⟨_, _, p, rfl, rfl, hsaid.hasTxn (by decide) htxn, hp, howner, _, hcarries⟩
      · intro m' r'' hreq' _
        cases hreq.symm.trans hreq'

/-- A stale offer goes to another connection than the peer's. -/
theorem Outcome.not_answered (hout : s.Outcome key conn h r now draws out)
    (hstale : s.StaleOffer key h r) : ¬ s.Answered key conn h r now draws out := by
  intro hans
  obtain ⟨m, r', f, p, id, b, side, hreq, hm, hon, hf, hp, rfl, htopic, hfind, hgood, hne⟩ := hstale
  obtain ⟨g, reg, hg, hcode, hpeer⟩ := relayAlloc_of_found conn.peer now draws.relay hon hf
    hp htopic hfind hgood
  obtain ⟨ok, offer, p', hlist, -, -, hp', hdst, -⟩ :=
    hans.offered m ⟨hreq, ⟨r', hm⟩, g, reg, hg, hcode⟩
  cases hp.symm.trans hp'
  cases hout with
  | failed ho => exact ho.relayAlloc hreq hm hg hcode
  | done ho => exact ho.relayAlloc hreq hm hg hcode
  | sampled hreq' => cases hreq.symm.trans hreq'
  | introduced hreq' => cases hreq.symm.trans hreq'
  | granted _ hm' hg' =>
      cases hm.symm.trans hm'
      cases hg.symm.trans hg'
      obtain ⟨-, htail⟩ := List.cons.inj hlist
      obtain ⟨hoffer, -⟩ := List.cons.inj htail
      rw [← hoffer] at hdst
      exact hne (hpeer.symm.trans hdst)

end Answers

/-! ## The random loops end

With draws that hold enough different values every handler returns. -/

/-- Draws that end every loop of the registry: a free id, and every index of
every topic. -/
structure Enough (reg : Registry) (draws : Draws) : Prop where
  ids : ∃ id ∈ draws.relay.ids, id ≠ 0 ∧ id ∉ reg.relays
  indexes : ∀ topic t, reg.topics.lookup topic = some t →
    ∀ i < t.members.length, i ∈ draws.sampler.draws

theorem lookup_ends {reg : Registry} {draws : Draws} (h : Enough reg draws) (topic : TopicId)
    (max : Nat) (wantMeta : Bool) (now : Instant) :
    (reg.lookup topic max wantMeta now draws.sampler).1.isSome := by
  unfold Registry.lookup
  dsimp only
  split
  · rfl
  · rename_i t ht
    rw [Option.isSome_map]
    refine Registry.pick_isSome_iff.mpr fun _ => Nat.le_trans (Nat.min_le_right _ _) ?_
    -- every index of the topic is among the draws
    have hall : Finset.range t.members.length ⊆ draws.sampler.draws.toFinset := fun i hi =>
      List.mem_toFinset.mpr (h.indexes topic t ht i (Finset.mem_range.mp hi))
    calc t.members.length = (Finset.range t.members.length).card := (Finset.card_range _).symm
      _ ≤ draws.sampler.draws.toFinset.card := Finset.card_le_card hall

theorem relayAlloc_ends {reg : Registry} {draws : Draws} (h : Enough reg draws) (src peer : DevId)
    (kind : RelayKind) (owner : ConnKey) (addr : Endpoint) (now : Instant) :
    (reg.relayAlloc src peer kind owner addr now draws.relay).isSome := by
  obtain ⟨id, hid, hpos, hnew⟩ := h.ids
  have hfound : (draws.relay.ids.find? fun id => id ≠ 0 ∧ id ∉ reg.relays).isSome :=
    List.find?_isSome.mpr ⟨id, hid, decide_eq_true ⟨hpos, hnew⟩⟩
  unfold Registry.relayAlloc
  dsimp only
  split
  · rfl
  split
  swap
  · rfl
  split
  · rfl
  split
  · rfl
  split
  · split <;> rfl
  · split
    · rfl
    · rw [Option.isSome_map]
      exact hfound

section Runs

variable {P : Primitives} {s : ControlService} {key : ConnKey} {now : Instant} {draws : Draws}

theorem dispatch_ends (henough : Enough s.registry draws) (conn : Conn) (h : Header) (r : Reader) :
    (s.dispatch P key conn h r now draws).isSome := by
  unfold dispatch
  split
  · unfold onRegister
    split
    · rfl
    · dsimp only
      split <;> rfl
  · unfold onKeepalive
    dsimp only
    split
    · rfl
    split
    · rfl
    · split <;> rfl
  · unfold onUpdate
    split
    · rfl
    · dsimp only
      split <;> rfl
  · unfold onUnregister
    split
    · rfl
    · dsimp only
      split <;> rfl
  · unfold onLookup
    split
    · rfl
    · rename_i m _ _
      obtain ⟨found, hfound⟩ := Option.isSome_iff_exists.mp
        (lookup_ends henough m.id m.max m.wantMeta now)
      dsimp only
      rw [hfound]
      rfl
  · unfold onResolve
    split <;> rfl
  · unfold onTopics
    split <;> rfl
  · rfl
  · unfold onConnect
    split
    · rfl
    · dsimp only
      split <;> rfl
  · unfold onRelayAlloc
    split
    · rfl
    · rename_i m _ _
      obtain ⟨g, hg⟩ := Option.isSome_iff_exists.mp
        (relayAlloc_ends henough m.fromDev m.peerDev m.kind key conn.peer now)
      rw [hg, Option.bind_some]
      dsimp only
      split <;> rfl
  · rfl

theorem onMessage_ends (henough : Enough s.registry draws) (msg : Bytes) (admitted : Bool) :
    (s.onMessage P key msg now admitted draws).isSome := by
  unfold onMessage
  split
  · rfl
  split
  · rfl
  split
  · rfl
  · exact dispatch_ends henough _ _ _

/-- What a message from an open connection comes to, in a state whose records
are as decoders fill them. -/
theorem answered_iff (hstored : AllStored s.registry) {conn : Conn}
    (hopen : s.conns.lookup key = some conn) {msg : Bytes} {admitted : Bool} {res : Result}
    {s' : ControlService} (hm : s.onMessage P key msg now admitted draws = some (res, s')) :
    (res.close = false → ∃ h r, Header.decode { rest := msg } ctlVersion = (some h, r) ∧
        s.Answered key conn h r now draws res.out) ↔
      (admitted = true → ∀ h r, Header.decode { rest := msg } ctlVersion = (some h, r) →
        ¬ s.StaleOffer key h r) := by
  unfold onMessage at hm
  rw [hopen] at hm
  dsimp only at hm
  cases admitted with
  | false =>
      cases hm
      exact ⟨fun _ hadmitted => absurd hadmitted Bool.false_ne_true,
        fun _ hclose => absurd hclose Bool.noConfusion⟩
  | true =>
      rw [Bool.not_true, if_neg Bool.false_ne_true] at hm
      rcases hh : Header.decode { rest := msg } ctlVersion with ⟨- | h, r⟩
      · rw [hh] at hm
        cases hm
        refine ⟨fun _ _ h r heq => ?_, fun _ hclose => absurd hclose Bool.noConfusion⟩
        cases (Prod.mk.inj heq).1
      · rw [hh] at hm
        obtain ⟨hclose, hout⟩ := dispatch_outcome hm
        have htxn := (Header.decode_spends hh).2.2.1
        constructor
        · intro hans _ h' r' heq hstale
          cases heq
          obtain ⟨h'', r'', heq, hanswered⟩ := hans hclose
          cases heq
          exact hout.not_answered hstale hanswered
        · intro hfresh _
          exact ⟨h, r, rfl, hout.answered hstored htxn (hfresh rfl h r rfl)⟩

end Runs

/-- In every state a run of the service reaches, whatever message an open
connection sends: with enough random draws it is dealt with, and either the
connection is closed or the message is answered as it is to be, with frames that
fit, exactly if it makes no stale offer. -/
theorem requests_answered (P : Primitives) (cfg : RegistryConfig) (secret : SymKey)
    (maxUdpSources : Nat) (events : List Event) (key : ConnKey) (conn : Conn)
    (hopen : (run (step P) (create cfg secret maxUdpSources) events).conns.lookup key = some conn)
    (msg : Bytes) (now : Instant) (admitted : Bool) (draws : Draws) :
    let s := run (step P) (create cfg secret maxUdpSources) events
    (Enough s.registry draws → (s.onMessage P key msg now admitted draws).isSome) ∧
      ∀ res s', s.onMessage P key msg now admitted draws = some (res, s') →
        ((res.close = false → ∃ h r, Header.decode { rest := msg } ctlVersion = (some h, r) ∧
            s.Answered key conn h r now draws res.out) ↔
          (admitted = true → ∀ h r, Header.decode { rest := msg } ctlVersion = (some h, r) →
            ¬ s.StaleOffer key h r)) := by
  intro s
  have hstored : AllStored s.registry := allStored_run (allStored_init cfg secret) events
  exact ⟨fun henough => onMessage_ends henough msg admitted,
    fun res s' hm => answered_iff hstored hopen hm⟩

/-- The device at port 7 asks for a relay to the one at port 8. -/
def sampleRelay : Bytes :=
  message .relayAlloc 6
    (RelayAlloc.encode { fromDev := sampleDevice 7, peerDev := sampleDevice 8 })

/-- Two members of a topic with a relay between them. -/
def sampleRun : List Event :=
  [.opened 1 (sampleAddress 7), .opened 2 (sampleAddress 8), sampleMessage 1 sampleRegister,
   sampleMessage 2 sampleRegister, sampleMessage 1 sampleRelay]

/-- The request of the samples, read. -/
theorem sampleRelay_decoded {h : Header} {r r' : Reader} {m : RelayAlloc}
    (hh : Header.decode { rest := sampleRelay } ctlVersion = (some h, r))
    (hm : RelayAlloc.decode.run r = some (m, r')) :
    m = { fromDev := sampleDevice 7, peerDev := sampleDevice 8 } := by
  have hread : (RelayAlloc.decode.run (Header.decode { rest := sampleRelay } ctlVersion).2).map
      Prod.fst = some { fromDev := sampleDevice 7, peerDev := sampleDevice 8 } := by decide +kernel
  rw [hh, hm, Option.map_some, Option.some.injEq] at hread
  exact hread

/-- The binding of the samples is with the peer's own connection. -/
theorem sampleRelay_fresh {h : Header} {r : Reader}
    (hh : Header.decode { rest := sampleRelay } ctlVersion = (some h, r)) :
    ¬ (sampleService sampleRun).StaleOffer 1 h r := by
  rintro ⟨m, r', f, p, id, b, side, -, hm, -, -, hp, -, -, hfind, -, hne⟩
  have howner : ((sampleService sampleRun).registry.byDev.lookup (sampleDevice 8)).map Entry.owner =
      some 2 := by decide +kernel
  have hbound : ((sampleService sampleRun).registry.findBinding (sampleDevice 7) (sampleDevice 8)
      .tcp).map (fun x => x.1.2.owner (1 - x.2)) = some 2 := by decide +kernel
  rw [sampleRelay_decoded hh hm] at hp hfind
  dsimp only at hp hfind
  rw [hp, Option.map_some, Option.some.injEq] at howner
  rw [hfind, Option.map_some, Option.some.injEq] at hbound
  exact hne (hbound.trans howner.symm)

theorem requests_answered_sample :
    let s := sampleService sampleRun
    ∃ res s', s.onMessage Primitives.checksum 1 sampleRelay 4 true sampleDraws = some (res, s') ∧
      res.close = false ∧ ∃ h r, Header.decode { rest := sampleRelay } ctlVersion = (some h, r) ∧
        s.Answered 1 ⟨sampleAddress 7⟩ h r 4 sampleDraws res.out := by
  intro s
  have hopen : s.conns.lookup 1 = some ⟨sampleAddress 7⟩ := by
    obtain ⟨conn, hconn⟩ : ∃ conn, s.conns.lookup 1 = some conn :=
      Option.isSome_iff_exists.mp (by decide +kernel)
    have hpeer : (s.conns.lookup 1).map (·.peer) = some (sampleAddress 7) := by decide +kernel
    rw [hconn, Option.map_some, Option.some.injEq] at hpeer
    rw [hconn, ← hpeer]
  obtain ⟨⟨res, s'⟩, hres⟩ := Option.isSome_iff_exists.mp (show
    (s.onMessage Primitives.checksum 1 sampleRelay 4 true sampleDraws).isSome by decide +kernel)
  have hclose : (s.onMessage Primitives.checksum 1 sampleRelay 4 true sampleDraws).map
      (·.1.close) = some false := by decide +kernel
  rw [hres, Option.map_some, Option.some.injEq] at hclose
  have hanswered := (requests_answered Primitives.checksum {} (Vector.replicate 32 0) 16384 sampleRun
    1 ⟨sampleAddress 7⟩ hopen sampleRelay 4 true sampleDraws).2 res s' hres
  exact ⟨res, s', hres, hclose, hanswered.mpr (fun _ _ _ hh => sampleRelay_fresh hh) hclose⟩

/-- A third connection takes the peer's record over; the offer that follows
still goes to the second. -/
theorem offer_misses_owner :
    let s := sampleService
      (sampleRun ++ [.opened 3 (sampleAddress 8), sampleMessage 3 sampleRegister])
    ∃ res s', s.onMessage Primitives.checksum 1 sampleRelay 4 true sampleDraws = some (res, s') ∧
      res.close = false ∧ ∀ h r, Header.decode { rest := sampleRelay } ctlVersion = (some h, r) →
        ∀ conn, s.conns.lookup 1 = some conn →
          ¬ s.Answered 1 conn h r 4 sampleDraws res.out := by
  intro s
  obtain ⟨⟨res, s'⟩, hres⟩ := Option.isSome_iff_exists.mp (show
    (s.onMessage Primitives.checksum 1 sampleRelay 4 true sampleDraws).isSome by decide +kernel)
  have hclose : (s.onMessage Primitives.checksum 1 sampleRelay 4 true sampleDraws).map
      (·.1.close) = some false := by decide +kernel
  rw [hres, Option.map_some, Option.some.injEq] at hclose
  have hsent : (s.onMessage Primitives.checksum 1 sampleRelay 4 true sampleDraws).map
      (fun x => x.1.out.map Framed.dst) = some [1, 2] := by decide +kernel
  rw [hres, Option.map_some, Option.some.injEq] at hsent
  refine ⟨res, s', hres, hclose, fun h r hh conn hconn hans => ?_⟩
  have hreq : Request.ofType h.type = .relayAlloc := by
    have htype : ((Header.decode { rest := sampleRelay } ctlVersion).1.map fun h =>
      Request.ofType h.type) = some .relayAlloc := by decide +kernel
    rwa [hh, Option.map_some, Option.some.injEq] at htype
  obtain ⟨⟨m, r'⟩, hm⟩ := Option.isSome_iff_exists.mp (show
    (RelayAlloc.decode.run (Header.decode { rest := sampleRelay } ctlVersion).2).isSome by
      decide +kernel)
  rw [hh] at hm
  obtain rfl := sampleRelay_decoded hh hm
  have hgrant : ((s.registry.relayAlloc (sampleDevice 7) (sampleDevice 8) .tcp 1 conn.peer 4
      sampleDraws.relay).map (·.1.code)) = some .none := by
    have hall : (s.conns.lookup 1).all (fun conn => decide
        ((s.registry.relayAlloc (sampleDevice 7) (sampleDevice 8) .tcp 1 conn.peer 4
          sampleDraws.relay).map (·.1.code) = some .none)) = true := by decide +kernel
    rwa [hconn, Option.all_some, decide_eq_true_eq] at hall
  obtain ⟨⟨g, reg⟩, hg, hcode⟩ := Option.map_eq_some_iff.mp hgrant
  obtain ⟨ok, offer, p, hlist, -, -, hp, hdst, -⟩ :=
    hans.offered _ ⟨hreq, ⟨r', hm⟩, g, reg, hg, hcode⟩
  have howner : (s.registry.byDev.lookup (sampleDevice 8)).map Entry.owner = some 3 := by
    decide +kernel
  rw [hp, Option.map_some, Option.some.injEq] at howner
  rw [hlist] at hsent
  have hoffer : offer.dst = 2 := (List.cons.inj (List.cons.inj hsent).2).1
  exact absurd (hoffer.symm.trans (hdst.trans howner)) (by decide)

end ControlService

end UConnect.Server
