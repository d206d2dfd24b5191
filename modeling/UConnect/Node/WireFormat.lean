/-
  Node/WireFormat.lean --- the whole wire format read back.

  Source: src/wire/control.cpp, src/wire/messages.cpp and the payload codecs of
  src/api/node.cpp.

  The two payloads a node puts into other messages have decoders of their own
  that take the bytes and drop the cursor.  They are put beside the decoders of
  the messages here, and `wire_format` collects what holds of all of them.

  Two decoders do not fit the general pattern.  `WhoAmI::decode` reads the nonce
  and leaves the padding behind it; `decode_dgram_offer` refuses a rekey shift
  outside 7 to 63.
-/
import UConnect.Node.Payloads
import UConnect.Wire.RoundTrip

set_option autoImplicit false

namespace UConnect.Node

open UConnect.Foundation UConnect.Wire UConnect.Wire.Decoder

/-! ## The payloads' decoders with their cursor

The decoders that take bytes, beside those that take a reader. -/

/-- The loop of `candidate` as a decoder. -/
theorem times_candidate (n : Nat) (r : Reader) :
    (times candidate n).run r = some (r.candidates n) := by
  induction n generalizing r with
  | zero => rfl
  | succ n ih =>
      rw [times, run_bind]
      show (some r.candidate).bind _ = _
      rw [Option.bind_some, run_bind, ih]
      rfl

/-- `decode_intro` with the cursor it leaves. -/
def introDecoder : Decoder (TopicId × AttemptNonce × List Candidate) := do
  let topic ← array 16
  let attempt ← array kAttemptLen
  let n ← u8
  good
  require (n.toNat ≤ kMaxCandidates)
  let cands ← times candidate n.toNat
  good
  return (topic, attempt, cands)

/-- `decode_dgram_offer` with the cursor it leaves. -/
def dgramOfferDecoder : Decoder (Nat × Nat × List Candidate) := do
  let epoch ← u32
  let rekeyShift ← u8
  let n ← u8
  good
  require (n.toNat ≤ kMaxCandidates ∧ 7 ≤ rekeyShift.toNat ∧ rekeyShift.toNat ≤ 63)
  let cands ← times candidate n.toNat
  good
  return (epoch, rekeyShift.toNat, cands)

theorem decodeIntro_eq (p : Bytes) :
    decodeIntro p = (introDecoder.run { rest := p }).map Prod.fst := by
  unfold decodeIntro introDecoder
  generalize ({ rest := p } : Reader) = r
  simp only [run_bind, times_candidate]
  show _ = Option.map Prod.fst ((some (r.array 16)).bind fun x =>
    (some (x.2.array kAttemptLen)).bind fun y => (some y.2.u8).bind _)
  simp only [Option.bind_some]
  generalize r.array 16 = x
  generalize x.2.array kAttemptLen = y
  generalize y.2.u8 = z
  cases hok : z.2.ok with
  | false => simp [good, hok]
  | true =>
      by_cases hn : z.1.toNat ≤ kMaxCandidates
      · cases hlast : (z.2.candidates z.1.toNat).2.ok <;>
          simp [good, require, hok, hn, hlast, Nat.not_lt.mpr hn, pure]
      · simp [good, require, hok, hn, Nat.lt_of_not_le hn]

theorem decodeDgramOffer_eq (p : Bytes) :
    decodeDgramOffer p = (dgramOfferDecoder.run { rest := p }).bind fun x =>
      if x.2.remaining = 0 then some x.1 else none := by
  unfold decodeDgramOffer dgramOfferDecoder
  generalize ({ rest := p } : Reader) = r
  simp only [run_bind, times_candidate]
  show _ = ((some r.u32).bind fun x =>
    (some x.2.u8).bind fun y => (some y.2.u8).bind _).bind _
  simp only [Option.bind_some]
  generalize r.u32 = x
  generalize x.2.u8 = y
  generalize y.2.u8 = z
  have hlow : y.1 < 7 ↔ ¬ 7 ≤ y.1.toNat := UInt8.lt_iff_toNat_lt.trans Nat.not_le.symm
  have hhigh : y.1 > 63 ↔ ¬ y.1.toNat ≤ 63 := UInt8.lt_iff_toNat_lt.trans Nat.not_le.symm
  cases hok : z.2.ok with
  | false => simp [good, hok]
  | true =>
      by_cases hn : z.1.toNat ≤ kMaxCandidates ∧ 7 ≤ y.1.toNat ∧ y.1.toNat ≤ 63
      · obtain ⟨hcount, hmin, hmax⟩ := hn
        cases hlast : (z.2.candidates z.1.toNat).2.ok <;>
          simp [good, require, hok, hcount, hmin, hmax, hlow, hhigh, hlast, Nat.not_lt.mpr hcount,
            pure]
      · have hout : ¬ (z.1.toNat ≤ kMaxCandidates) ∨ ¬ (7 ≤ y.1.toNat) ∨ ¬ (y.1.toNat ≤ 63) := by
          omega
        rcases hout with hout | hout | hout <;>
          simp [good, require, hok, hlow, hhigh, hout, Nat.lt_of_not_le hout]

/-- The bytes of the candidates of either payload. -/
theorem candidates_reads {cands : List Candidate} (h : Normal cands) :
    (times candidate (cands.take kMaxCandidates).length).Reads
      ((cands.take kMaxCandidates).flatMap Candidate.image) (cands.take kMaxCandidates) := by
  have hloop := times_reads (d := candidate)
    fun c (_ : c ∈ cands.take kMaxCandidates) => candidate_reads c
  rwa [h.map_take] at hloop

theorem introDecoder_reads (topic : TopicId) (attempt : AttemptNonce) {cands : List Candidate}
    (h : Normal cands) :
    introDecoder.Reads (encodeIntro topic attempt cands)
      (topic, attempt, cands.take kMaxCandidates) := by
  have hn := toNat_count cands
  have hle : (cands.take kMaxCandidates).length ≤ kMaxCandidates := List.length_take_le _ _
  have hall : introDecoder.Reads _ (topic, attempt, cands.take kMaxCandidates) :=
    (array_reads topic).bind <| (array_reads attempt).bind <|
      (u8_reads (UInt8.ofNat (min cands.length kMaxCandidates))).bind <| good_reads.after <|
      (require_reads (hn.symm ▸ hle)).after <| (hn.symm ▸ candidates_reads h).bind <| good_pure _
  rw [encodeIntro_eq]
  simpa using hall

theorem checked_introDecoder : introDecoder.Checked :=
  checked_bind fun _ => checked_bind fun _ => checked_bind fun _ => checked_bind fun _ =>
    checked_bind fun _ => checked_bind fun _ => checked_good.map _

theorem dgramOfferDecoder_reads {epoch rekeyShift : Nat} (hepoch : epoch < 2 ^ 32)
    (hshift : 7 ≤ rekeyShift ∧ rekeyShift ≤ 63) {cands : List Candidate} (h : Normal cands) :
    dgramOfferDecoder.Reads (encodeDgramOffer epoch rekeyShift cands)
      (epoch, rekeyShift, cands.take kMaxCandidates) := by
  have hn := toNat_count cands
  have hs : (UInt8.ofNat rekeyShift).toNat = rekeyShift := toNat_byte (by omega)
  have hle : (cands.take kMaxCandidates).length ≤ kMaxCandidates := List.length_take_le _ _
  have hrange : (UInt8.ofNat (min cands.length kMaxCandidates)).toNat ≤ kMaxCandidates ∧
      7 ≤ (UInt8.ofNat rekeyShift).toNat ∧ (UInt8.ofNat rekeyShift).toNat ≤ 63 := by
    rw [hn, hs]
    exact ⟨hle, hshift⟩
  have hall : dgramOfferDecoder.Reads _
      (epoch, (UInt8.ofNat rekeyShift).toNat, cands.take kMaxCandidates) :=
    (u32_reads hepoch).bind <| (u8_reads (UInt8.ofNat rekeyShift)).bind <|
      (u8_reads (UInt8.ofNat (min cands.length kMaxCandidates))).bind <| good_reads.after <|
      (require_reads hrange).after <| (hn.symm ▸ candidates_reads h).bind <| good_pure _
  rw [hs] at hall
  rw [encodeDgramOffer_eq]
  simpa using hall

theorem checked_dgramOfferDecoder : dgramOfferDecoder.Checked :=
  checked_bind fun _ => checked_bind fun _ => checked_bind fun _ => checked_bind fun _ =>
    checked_bind fun _ => checked_bind fun _ => checked_good.map _

/-! ## The format

All messages, in one structure with a field for each. -/

/-- Every message of the format is read back, from exactly its bytes, as what
the caps of the format leave of it.  Numbers are in the range of their field and
endpoints in normal form. -/
structure WireFormat : Prop where
  register : ∀ (m : Register) (h : Header), m.keyEpoch < 2 ^ 8 → Normal m.hostCands →
    (h.flags &&& kUnlisted != 0) = m.unlisted →
    RoundTrips m.encode (Register.decode h)
      { m with hostCands := m.hostCands.take kMaxCandidates, «meta» := m.«meta».take kMaxMeta }
  registerOk : ∀ m : RegisterOk, m.srflx.normal = m.srflx → m.peersInTopic < 2 ^ 16 →
    RoundTrips m.encode RegisterOk.decode m
  devRef : ∀ m : DevRef, RoundTrips m.encode DevRef.decode m
  keepaliveOk : ∀ m : KeepaliveOk, m.srflx.normal = m.srflx →
    RoundTrips m.encode KeepaliveOk.decode m
  update : ∀ m : Update, Normal m.hostCands →
    RoundTrips m.encode Update.decode
      { m with hostCands := m.hostCands.take kMaxCandidates, «meta» := m.«meta».take kMaxMeta }
  peerEntry : ∀ m : PeerEntry, m.Wf →
    RoundTrips m.encode PeerEntry.decode
      { m with cands := m.cands.take kMaxCandidates, «meta» := m.«meta».take kMaxMeta }
  topicSummary : ∀ m : TopicSummary, m.Wf → RoundTrips m.encode TopicSummary.decode m
  lookup : ∀ (m : Lookup) (h : Header), m.max < 2 ^ 8 →
    (h.flags &&& kWantMeta != 0) = m.wantMeta →
    RoundTrips m.encode (Lookup.decode h)
      { m with max := if m.max = 0 then kLookupDefault else min m.max kLookupMax }
  lookupOk : ∀ m : LookupOk, m.total < 2 ^ 16 → (∀ e ∈ m.entries, e.Wf) →
    RoundTrips m.encode LookupOk.decode
      { m with entries := (m.entries.take kLookupMax).map PeerEntry.capped }
  resolve : ∀ m : Resolve, RoundTrips m.encode Resolve.decode m
  resolveOk : ∀ m : ResolveOk, m.entry.Wf →
    RoundTrips m.encode ResolveOk.decode
      (if m.found then { m with entry := m.entry.capped } else {})
  topics : ∀ m : Topics, m.cursor < 2 ^ 32 → m.limit < 2 ^ 8 →
    RoundTrips m.encode Topics.decode { m with limit := if m.limit = 0 then 100 else m.limit }
  topicsOk : ∀ m : TopicsOk, m.nextCursor < 2 ^ 32 → (∀ t ∈ m.topics, t.Wf) →
    RoundTrips m.encode TopicsOk.decode m
  statsOk : ∀ m : StatsOk, (∀ v ∈ m.values, v < 2 ^ 64) → RoundTrips m.encode StatsOk.decode m
  connect : ∀ m : Connect,
    RoundTrips m.encode Connect.decode { m with payload := m.payload.take kMaxRelayPayload }
  relayed : ∀ m : Relayed,
    RoundTrips m.encode Relayed.decode { m with payload := m.payload.take kMaxRelayPayload }
  relayAlloc : ∀ m : RelayAlloc, RoundTrips m.encode RelayAlloc.decode m
  relayAllocOk : ∀ m : RelayAllocOk, m.relayId < 2 ^ 64 → m.maxKib < 2 ^ 32 →
    RoundTrips m.encode RelayAllocOk.decode m
  relayOffer : ∀ m : RelayOffer, m.relayId < 2 ^ 64 → RoundTrips m.encode RelayOffer.decode m
  relayJoin : ∀ m : RelayJoin, m.relayId < 2 ^ 64 → RoundTrips m.encode RelayJoin.decode m
  relayData : ∀ m : RelayData, m.relayId < 2 ^ 64 →
    RoundTrips m.encode RelayData.decode { m with payload := m.payload.take kMaxDatagram }
  error : ∀ m : Error, m.code < 2 ^ 16 →
    RoundTrips m.encode Error.decode { m with reason := m.reason.take 255 }
  whoAmIOk : ∀ m : WhoAmIOk, m.nonce < 2 ^ 64 → m.mapped.normal = m.mapped →
    RoundTrips m.encode WhoAmIOk.decode m
  udpRelayBind : ∀ m : UdpRelayBind, m.relayId < 2 ^ 64 →
    RoundTrips m.encode UdpRelayBind.decode m
  udpRelayBindOk : ∀ m : UdpRelayBindOk, m.relayId < 2 ^ 64 →
    RoundTrips m.encode UdpRelayBindOk.decode m
  probe : ∀ m : Probe, RoundTrips m.encode Probe.decode m
  probeOk : ∀ m : ProbeOk, m.mapped.normal = m.mapped → RoundTrips m.encode ProbeOk.decode m
  /-- The nonce is read and the padding left. -/
  whoAmI : ∀ (m : WhoAmI) (w : Writer), m.nonce < 2 ^ 64 → (m.encode w).ok = true →
    (m.encode w).written = w.written ++ beBytes 8 m.nonce ++
        List.replicate (kWhoAmISize - (w.written.length + 8)) 0 ∧
      (∀ rest, WhoAmI.decode.run { rest := beBytes 8 m.nonce ++ rest } =
        some (m, { rest := rest })) ∧
      ∀ p q, beBytes 8 m.nonce = p ++ q → q ≠ [] → WhoAmI.decode.run { rest := p } = none
  /-- `Transport`, and `Close` which is the same: the ciphertext runs to the
  end. -/
  transport : ∀ (m : Transport) (w : Writer), m.connId < 2 ^ 32 → m.counter < 2 ^ 64 →
    (m.encode w).ok = true → ∃ bs, (m.encode w).written = w.written ++ bs ∧
      Transport.decoder.run { rest := bs } = some (m, { rest := [] })
  intro : ∀ (topic : TopicId) (attempt : AttemptNonce) (cands : List Candidate), Normal cands →
    (∀ rest, introDecoder.run { rest := encodeIntro topic attempt cands ++ rest } =
      some ((topic, attempt, cands.take kMaxCandidates), { rest := rest })) ∧
    decodeIntro (encodeIntro topic attempt cands) =
      some (topic, attempt, cands.take kMaxCandidates) ∧
    ∀ p q, encodeIntro topic attempt cands = p ++ q → q ≠ [] → decodeIntro p = none
  dgramOffer : ∀ (epoch rekeyShift : Nat) (cands : List Candidate), epoch < 2 ^ 32 →
    7 ≤ rekeyShift ∧ rekeyShift ≤ 63 → Normal cands →
    dgramOfferDecoder.run { rest := encodeDgramOffer epoch rekeyShift cands } =
      some ((epoch, rekeyShift, cands.take kMaxCandidates), { rest := [] }) ∧
    decodeDgramOffer (encodeDgramOffer epoch rekeyShift cands) =
      some (epoch, rekeyShift, cands.take kMaxCandidates) ∧
    ∀ p q, encodeDgramOffer epoch rekeyShift cands = p ++ q → q ≠ [] → decodeDgramOffer p = none

theorem clamp_eq (max : Nat) :
    Lookup.clamp max = if max = 0 then kLookupDefault else min max kLookupMax := by
  unfold Lookup.clamp
  by_cases hzero : max = 0
  · rw [hzero]
    rfl
  · simp only [hzero, if_false]
    split <;> omega

/-- The whole format is read back as it was written. -/
theorem wire_format_read_back : WireFormat where
  register _ _ hepoch hcands hflags := Register.roundTrips hepoch hcands hflags
  registerOk _ hsrflx hpeers := RegisterOk.roundTrips hsrflx hpeers
  devRef m := m.roundTrips
  keepaliveOk _ hsrflx := KeepaliveOk.roundTrips hsrflx
  update _ hcands := Update.roundTrips hcands
  peerEntry _ h := PeerEntry.roundTrips h
  topicSummary _ h := TopicSummary.roundTrips h
  lookup m _ hmax hflags := by
    rw [← clamp_eq]
    exact Lookup.roundTrips hmax hflags
  lookupOk _ htotal hentries := LookupOk.roundTrips htotal hentries
  resolve m := m.roundTrips
  resolveOk _ hentry := ResolveOk.roundTrips hentry
  topics _ hcursor hlimit := Topics.roundTrips hcursor hlimit
  topicsOk _ hcursor htopics := TopicsOk.roundTrips hcursor htopics
  statsOk _ h := StatsOk.roundTrips h
  connect m := m.roundTrips
  relayed m := m.roundTrips
  relayAlloc m := m.roundTrips
  relayAllocOk _ hid hkib := RelayAllocOk.roundTrips hid hkib
  relayOffer _ hid := RelayOffer.roundTrips hid
  relayJoin _ hid := RelayJoin.roundTrips hid
  relayData _ hid := RelayData.roundTrips hid
  error _ hcode := Error.roundTrips hcode
  whoAmIOk _ hnonce hmapped := WhoAmIOk.roundTrips hnonce hmapped
  udpRelayBind _ hid := UdpRelayBind.roundTrips hid
  udpRelayBindOk _ hid := UdpRelayBindOk.roundTrips hid
  probe m := m.roundTrips
  probeOk _ hmapped := ProbeOk.roundTrips hmapped
  whoAmI _ _ hnonce hok := by
    have hreads := WhoAmI.reads hnonce
    exact ⟨WhoAmI.encode_ok hok, hreads.whole,
      fun p q heq hq => hreads.refuses WhoAmI.checked heq hq⟩
  transport m _ hconn hcounter hok :=
    ⟨m.image, (Transport.encode_ok hok).2, Transport.decoder_image hconn hcounter⟩
  intro topic attempt cands h := by
    have hreads := introDecoder_reads topic attempt h
    refine ⟨hreads.whole, ?_, fun p q heq hq => ?_⟩
    · have hwhole := hreads.whole []
      rw [List.append_nil] at hwhole
      rw [decodeIntro_eq, hwhole]
      rfl
    · rw [decodeIntro_eq, hreads.refuses checked_introDecoder heq hq]
      rfl
  dgramOffer epoch rekeyShift cands hepoch hshift h := by
    have hreads := dgramOfferDecoder_reads hepoch hshift h
    have hwhole := hreads.whole []
    rw [List.append_nil] at hwhole
    refine ⟨hwhole, ?_, fun p q heq hq => ?_⟩
    · rw [decodeDgramOffer_eq, hwhole]
      rfl
    · rw [decodeDgramOffer_eq, hreads.refuses checked_dgramOfferDecoder heq hq]
      rfl

/-- A page of two topics in a full frame. -/
theorem wire_format_sample :
    let m : TopicsOk :=
      { nextCursor := 7
        topics := [⟨Vector.replicate 16 1, .open, 3, 2⟩, ⟨Vector.replicate 16 2, .keyed, 1, 0⟩] }
    (∀ t ∈ m.topics, t.peers < 2 ^ 32 ∧ t.freshPeers < 2 ^ 32) ∧
      (m.encode { capacity := kMaxFrame }).ok = true ∧
      RoundTrips m.encode TopicsOk.decode m := by
  refine ⟨by decide, by decide, wire_format_read_back.topicsOk _ (by decide) fun t ht => ?_⟩
  simp only [List.mem_cons, List.not_mem_nil, or_false] at ht
  rcases ht with rfl | rfl
  · exact ⟨by decide, by decide⟩
  · exact ⟨by decide, by decide⟩

/-- The padding of `WhoAmI` stays unread, and an offer whose shift is out of
range is refused. -/
theorem padding_left_and_shift_refused :
    ¬ RoundTrips (WhoAmI.encode ⟨7⟩) WhoAmI.decode ⟨7⟩ ∧
      decodeDgramOffer (encodeDgramOffer 1 6 []) = none := by
  refine ⟨fun h => ?_, by decide⟩
  obtain ⟨bs, hbs, hwhole, -⟩ :=
    h { capacity := 48, written := List.replicate 8 0 } (by decide) (by decide) (by decide)
  have hbytes : bs = beBytes 8 7 ++ List.replicate 32 0 :=
    List.append_cancel_left (hbs.symm.trans (by decide))
  have hread := hwhole []
  rw [hbytes] at hread
  revert hread
  decide

end UConnect.Node
