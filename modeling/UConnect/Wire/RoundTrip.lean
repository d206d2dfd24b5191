/-
  Wire/RoundTrip.lean --- every message is read back as it was written.

  Source: src/wire/control.cpp and src/wire/messages.cpp.

  One lemma for each part of a message (a list of candidates, a capped blob, an
  enumerator), then one theorem for each message, which is the parts in order.
  What comes back is the message with the caps of the format applied; the
  decoder leaves what follows and refuses anything shorter.
-/
import UConnect.Wire.Control

set_option autoImplicit false

namespace UConnect

open UConnect.Foundation UConnect.Wire UConnect.Wire.Decoder

/-! ## Parts

The lists, blobs and enumerations that several bodies have, written and read. -/

/-- The length a capped write announces, and what it writes. -/
theorem capped_length {α : Type} (xs : List α) (n : Nat) :
    (if xs.length > n then n else xs.length) = (xs.take n).length := by
  rw [List.length_take]
  split <;> omega

theorem take_capped {α : Type} (xs : List α) (n : Nat) :
    xs.take (if xs.length > n then n else xs.length) = xs.take n := by
  split
  · rfl
  · rename_i h
    rw [List.take_length, List.take_of_length_le (Nat.not_lt.mp h)]

/-- Candidates in normal form. -/
def Normal (cs : List Candidate) : Prop := ∀ c ∈ cs, c.normal = c

theorem Normal.map_take {cs : List Candidate} (h : Normal cs) (n : Nat) :
    (cs.take n).map Candidate.normal = cs.take n := by
  have hall : ∀ c ∈ cs.take n, c.normal = id c := fun c hc => h c (List.mem_of_mem_take hc)
  rw [List.map_congr_left hall, List.map_id]

namespace Wire

/-- The bytes of a list of candidates. -/
def candsImage (cs : List Candidate) : Bytes :=
  UInt8.ofNat (cs.take kMaxCandidates).length ::
    (cs.take kMaxCandidates).flatMap Candidate.image

/-- The bytes of a capped blob. -/
def blobImage (cap : Nat) (v : Bytes) : Bytes := beBytes 2 (v.take cap).length ++ v.take cap

theorem Wrote.cands {w w' : Writer} {bs : Bytes} (h : Wrote w w' bs) (cs : List Candidate) :
    Wrote w (writeCands w' cs) (bs ++ candsImage cs) := by
  have hall := (h.u8 (UInt8.ofNat (cs.take kMaxCandidates).length)).candidates
    (cs.take kMaxCandidates)
  unfold writeCands
  dsimp only
  rw [take_capped, capped_length]
  rwa [List.append_assoc] at hall

theorem Wrote.blob {w w' : Writer} {bs : Bytes} (h : Wrote w w' bs) (v : Bytes) (cap : Nat) :
    Wrote w (writeBlob16Capped w' v cap) (bs ++ blobImage cap v) := by
  have hall := (h.u16 (v.take cap).length).bytes (v.take cap)
  unfold writeBlob16Capped
  dsimp only
  rw [take_capped, capped_length]
  rwa [List.append_assoc] at hall

theorem readCands_reads {cs : List Candidate} (h : Normal cs) :
    readCands.Reads (candsImage cs) (cs.take kMaxCandidates) := by
  have hle : (cs.take kMaxCandidates).length ≤ kMaxCandidates := List.length_take_le _ _
  have hn : (UInt8.ofNat (cs.take kMaxCandidates).length).toNat =
      (cs.take kMaxCandidates).length :=
    UInt8.toNat_ofNat_of_lt' (Nat.lt_of_le_of_lt hle (by decide))
  have hloop := timesWhileOk_reads (d := candidate)
    fun c (_ : c ∈ cs.take kMaxCandidates) => candidate_reads c
  rw [h.map_take] at hloop
  refine (u8_reads _).bind ((require_reads ?_).after ?_)
  · rw [hn]
    exact hle
  · rw [hn]
    have hend := hloop.bind (k := fun out => good >>= fun _ => pure out)
      (good_reads.after (Reads.pure _))
    rwa [List.append_nil] at hend

theorem readBlob_reads {cap : Nat} (hcap : cap < 2 ^ 16) (v : Bytes) :
    (readBlob16Capped cap).Reads (blobImage cap v) (v.take cap) := by
  have hle : (v.take cap).length ≤ cap := List.length_take_le _ _
  refine (u16_reads (Nat.lt_of_le_of_lt hle hcap)).bind ((require_reads hle).after ?_)
  have hend := (bytes_reads (v.take cap)).bind (k := fun s => good >>= fun _ => pure s)
    (good_reads.after (Reads.pure _))
  rwa [List.append_nil] at hend

theorem checked_readBlob (cap : Nat) : (readBlob16Capped cap).Checked :=
  checked_bind fun _ => checked_bind fun _ => checked_bind fun _ => checked_good.map _

theorem readMeta_reads (m : Bytes) : readMeta.Reads (blobImage kMaxMeta m) (m.take kMaxMeta) :=
  readBlob_reads (by decide) m

theorem checked_readMeta : readMeta.Checked := checked_readBlob kMaxMeta

theorem readMode_reads (m : TopicMode) : readMode.Reads [m.code] m := by
  have hle : m.code ≤ TopicMode.keyed.code := by cases m <;> decide
  have hof : TopicMode.ofCode m.code = m := by cases m <;> rfl
  refine (u8_reads m.code).bind ((require_reads hle).after ?_)
  rw [hof]
  exact Reads.pure m

theorem readKind_reads (k : RelayKind) : readKind.Reads [k.code] k := by
  have hle : k.code ≤ RelayKind.udp.code := by cases k <;> decide
  have hof : RelayKind.ofCode k.code = k := by cases k <;> rfl
  refine (u8_reads k.code).bind ((require_reads hle).after ?_)
  rw [hof]
  exact Reads.pure k

/-- A byte that carries a number of its range. -/
theorem toNat_byte {n : Nat} (h : n < 2 ^ 8) : (UInt8.ofNat n).toNat = n :=
  UInt8.toNat_ofNat_of_lt' h

/-- The end of a decoder that looks at the flag and returns. -/
theorem good_pure {α : Type} (a : α) : (good >>= fun _ => (pure a : Decoder α)).Reads [] a :=
  good_reads.after (Reads.pure a)

end Wire

/-! ## Registration

The bodies about one's own record. -/

/-- A registration with the caps applied. -/
def Register.capped (m : Register) : Register :=
  { m with hostCands := m.hostCands.take kMaxCandidates, «meta» := m.«meta».take kMaxMeta }

theorem Register.roundTrips {m : Register} {h : Header} (hepoch : m.keyEpoch < 2 ^ 8)
    (hcands : Normal m.hostCands) (hflags : (h.flags &&& kUnlisted != 0) = m.unlisted) :
    RoundTrips m.encode (Register.decode h) m.capped := by
  refine roundTrips_of
    (fun w => (((((Wrote.refl w).array m.id).u8 m.mode.code).u8 (UInt8.ofNat m.keyEpoch)).cands
      m.hostCands).blob m.«meta» kMaxMeta)
    ((array_reads m.id).bind <| (readMode_reads m.mode).bind <|
      (u8_reads (UInt8.ofNat m.keyEpoch)).bind <| (readCands_reads hcands).bind <|
      (readMeta_reads m.«meta»).map _) ?_ ?_ ?_
  · simp only [List.nil_append, List.append_assoc]
  · rw [toNat_byte hepoch, hflags]
    rfl
  · exact checked_bind fun _ => checked_bind fun _ => checked_bind fun _ => checked_bind fun _ =>
      checked_readMeta.map _

theorem RegisterOk.roundTrips {m : RegisterOk} (hsrflx : m.srflx.normal = m.srflx)
    (hpeers : m.peersInTopic < 2 ^ 16) : RoundTrips m.encode RegisterOk.decode m := by
  refine roundTrips_of
    (fun w => (((Wrote.refl w).array m.devId).endpoint m.srflx).u16 m.peersInTopic)
    ((array_reads m.devId).bind <| (endpoint_reads m.srflx).bind <| (u16_reads hpeers).bind <|
      good_pure _) ?_ ?_ ?_
  · simp only [List.nil_append, List.append_assoc, List.append_nil]
  · rw [hsrflx]
  · exact checked_bind fun _ => checked_bind fun _ => checked_bind fun _ => checked_good.map _

theorem DevRef.roundTrips (m : DevRef) : RoundTrips m.encode DevRef.decode m := by
  refine roundTrips_of (fun w => (Wrote.refl w).array m.devId)
    ((array_reads m.devId).bind <| good_pure _) ?_ rfl ?_
  · simp only [List.nil_append, List.append_nil]
  · exact checked_bind fun _ => checked_good.map _

theorem KeepaliveOk.roundTrips {m : KeepaliveOk} (hsrflx : m.srflx.normal = m.srflx) :
    RoundTrips m.encode KeepaliveOk.decode m := by
  refine roundTrips_of (fun w => (Wrote.refl w).endpoint m.srflx)
    ((endpoint_reads m.srflx).bind <| good_pure _) ?_ ?_ ?_
  · simp only [List.nil_append, List.append_nil]
  · rw [hsrflx]
  · exact checked_bind fun _ => checked_good.map _

/-- An update with the caps applied. -/
def Update.capped (m : Update) : Update :=
  { m with hostCands := m.hostCands.take kMaxCandidates, «meta» := m.«meta».take kMaxMeta }

theorem Update.roundTrips {m : Update} (hcands : Normal m.hostCands) :
    RoundTrips m.encode Update.decode m.capped := by
  refine roundTrips_of
    (fun w => (((Wrote.refl w).array m.devId).cands m.hostCands).blob m.«meta» kMaxMeta)
    ((array_reads m.devId).bind <| (readCands_reads hcands).bind <|
      (readMeta_reads m.«meta»).map _) ?_ rfl ?_
  · simp only [List.nil_append, List.append_assoc]
  · exact checked_bind fun _ => checked_bind fun _ => checked_readMeta.map _

/-! ## Directory entries

An entry comes back with its lists cut at their caps and its addresses in normal
form. -/

/-- An entry with the caps applied. -/
def PeerEntry.capped (m : PeerEntry) : PeerEntry :=
  { m with cands := m.cands.take kMaxCandidates, «meta» := m.«meta».take kMaxMeta }

/-- The bytes of an entry. -/
def PeerEntry.image (m : PeerEntry) : Bytes :=
  m.devId.toList ++ (beBytes 2 m.ageSecs ++ ([if m.stale then kStale else 0] ++
    (candsImage m.cands ++ blobImage kMaxMeta m.«meta»)))

/-- The values an entry's fields have in the source. -/
structure PeerEntry.Wf (m : PeerEntry) : Prop where
  age : m.ageSecs < 2 ^ 16
  cands : Normal m.cands

theorem PeerEntry.wrote {w w' : Writer} {bs : Bytes} (m : PeerEntry) (h : Wrote w w' bs) :
    Wrote w (m.encode w') (bs ++ m.image) := by
  have hall := ((((h.array m.devId).u16 m.ageSecs).u8 (if m.stale then kStale else 0)).cands
    m.cands).blob m.«meta» kMaxMeta
  simp only [List.append_assoc] at hall
  exact hall

theorem PeerEntry.reads {m : PeerEntry} (h : m.Wf) : PeerEntry.decode.Reads m.image m.capped := by
  have hstale : ((if m.stale then kStale else 0) &&& kStale != 0) = m.stale := by
    cases m.stale <;> decide
  have hall : PeerEntry.decode.Reads m.image _ :=
    (array_reads m.devId).bind <| (u16_reads h.age).bind <|
      (u8_reads (if m.stale then kStale else 0)).bind <| (readCands_reads h.cands).bind <|
      (readMeta_reads m.«meta»).map _
  rwa [hstale] at hall

theorem PeerEntry.checked : PeerEntry.decode.Checked :=
  checked_bind fun _ => checked_bind fun _ => checked_bind fun _ => checked_bind fun _ =>
    Checked.map (checked_readBlob kMaxMeta) _

theorem PeerEntry.roundTrips {m : PeerEntry} (h : m.Wf) :
    RoundTrips m.encode PeerEntry.decode m.capped :=
  roundTrips_of (fun w => m.wrote (Wrote.refl w)) (PeerEntry.reads h) rfl rfl PeerEntry.checked

/-- The bytes of a summary. -/
def TopicSummary.image (m : TopicSummary) : Bytes :=
  m.id.toList ++ ([m.mode.code] ++ (beBytes 4 m.peers ++ beBytes 4 m.freshPeers))

/-- The values a summary's fields have in the source. -/
structure TopicSummary.Wf (m : TopicSummary) : Prop where
  peers : m.peers < 2 ^ 32
  freshPeers : m.freshPeers < 2 ^ 32

theorem TopicSummary.length_image (m : TopicSummary) : m.image.length = 25 := by
  simp [TopicSummary.image]

theorem TopicSummary.wrote {w w' : Writer} {bs : Bytes} (m : TopicSummary) (h : Wrote w w' bs) :
    Wrote w (m.encode w') (bs ++ m.image) := by
  have hall := (((h.array m.id).u8 m.mode.code).u32 m.peers).u32 m.freshPeers
  simp only [List.append_assoc] at hall
  exact hall

theorem TopicSummary.reads {m : TopicSummary} (h : m.Wf) :
    TopicSummary.decode.Reads m.image m := by
  have hall : TopicSummary.decode.Reads _ m :=
    (array_reads m.id).bind <| (readMode_reads m.mode).bind <| (u32_reads h.peers).bind <|
      (u32_reads h.freshPeers).bind <| good_pure _
  rwa [List.append_nil] at hall

theorem TopicSummary.checked : TopicSummary.decode.Checked :=
  checked_bind fun _ => checked_bind fun _ => checked_bind fun _ => checked_bind fun _ =>
    checked_good.map _

theorem TopicSummary.roundTrips {m : TopicSummary} (h : m.Wf) :
    RoundTrips m.encode TopicSummary.decode m :=
  roundTrips_of (fun w => m.wrote (Wrote.refl w)) (TopicSummary.reads h) rfl rfl
    TopicSummary.checked

/-! ## Discovery

The questions and their replies; a reply is a loop over entries. -/

theorem Lookup.roundTrips {m : Lookup} {h : Header} (hmax : m.max < 2 ^ 8)
    (hflags : (h.flags &&& kWantMeta != 0) = m.wantMeta) :
    RoundTrips m.encode (Lookup.decode h) { m with max := Lookup.clamp m.max } := by
  refine roundTrips_of (fun w => ((Wrote.refl w).array m.id).u8 (UInt8.ofNat m.max))
    ((array_reads m.id).bind <| (u8_reads (UInt8.ofNat m.max)).bind <| good_pure _) ?_ ?_ ?_
  · simp only [List.nil_append, List.append_nil]
  · rw [toNat_byte hmax, hflags]
  · exact checked_bind fun _ => checked_bind fun _ => checked_good.map _

/-- A page of entries with the caps applied. -/
def LookupOk.capped (m : LookupOk) : LookupOk :=
  { m with entries := (m.entries.take kLookupMax).map PeerEntry.capped }

/-- The bytes of a page of entries. -/
def LookupOk.image (m : LookupOk) : Bytes :=
  m.id.toList ++ ([m.mode.code] ++ (beBytes 2 m.total ++
    ([UInt8.ofNat (m.entries.take kLookupMax).length] ++
      (m.entries.take kLookupMax).flatMap PeerEntry.image)))

theorem LookupOk.wrote (m : LookupOk) (w : Writer) : Wrote w (m.encode w) m.image := by
  have hall := Wrote.foldl (fun e h => e.wrote h)
    (((((Wrote.refl w).array m.id).u8 m.mode.code).u16 m.total).u8
      (UInt8.ofNat (m.entries.take kLookupMax).length)) (m.entries.take kLookupMax)
  simp only [List.nil_append, List.append_assoc] at hall
  unfold LookupOk.encode
  dsimp only
  rw [take_capped, capped_length]
  exact hall

theorem LookupOk.reads {m : LookupOk} (htotal : m.total < 2 ^ 16)
    (hentries : ∀ e ∈ m.entries, e.Wf) : LookupOk.decode.Reads m.image m.capped := by
  have hle : (m.entries.take kLookupMax).length ≤ kLookupMax := List.length_take_le _ _
  have hn := toNat_byte (Nat.lt_of_le_of_lt hle (show kLookupMax < 2 ^ 8 by decide))
  have hloop := times_reads (d := PeerEntry.decode) fun e (he : e ∈ m.entries.take kLookupMax) =>
    PeerEntry.reads (hentries e (List.mem_of_mem_take he))
  exact (array_reads m.id).bind <| (readMode_reads m.mode).bind <| (u16_reads htotal).bind <|
    (u8_reads (UInt8.ofNat (m.entries.take kLookupMax).length)).bind <| good_reads.after <|
    (require_reads (hn.symm ▸ hle)).after <| (hn.symm ▸ hloop).map _

theorem LookupOk.roundTrips {m : LookupOk} (htotal : m.total < 2 ^ 16)
    (hentries : ∀ e ∈ m.entries, e.Wf) : RoundTrips m.encode LookupOk.decode m.capped := by
  refine roundTrips_of m.wrote (LookupOk.reads htotal hentries) rfl rfl ?_
  exact checked_bind fun _ => checked_bind fun _ => checked_bind fun _ => checked_bind fun _ =>
    checked_good.bind fun _ => Keeps.bind (keeps_require _) fun _ =>
      Keeps.bind (PeerEntry.checked.times _) fun _ => keeps_pure _

theorem Resolve.roundTrips (m : Resolve) : RoundTrips m.encode Resolve.decode m := by
  refine roundTrips_of (fun w => (Wrote.refl w).array m.devId)
    ((array_reads m.devId).bind <| good_pure _) ?_ rfl ?_
  · simp only [List.nil_append, List.append_nil]
  · exact checked_bind fun _ => checked_good.map _

/-- A resolution as it comes back: an entry that was not found is not carried. -/
def ResolveOk.capped (m : ResolveOk) : ResolveOk :=
  if m.found then { m with entry := m.entry.capped } else {}

theorem ResolveOk.roundTrips {m : ResolveOk} (hentry : m.entry.Wf) :
    RoundTrips m.encode ResolveOk.decode m.capped := by
  have hchecked : ResolveOk.decode.Checked := by
    refine checked_bind fun found => checked_good.bind fun _ => ?_
    split
    · exact keeps_pure _
    · exact Checked.keeps (checked_bind fun _ => Checked.map PeerEntry.checked _)
  obtain ⟨found, topic, entry⟩ := m
  cases found with
  | false =>
      exact roundTrips_of (fun w => (Wrote.refl w).u8 0) ((u8_reads 0).bind (good_pure _)) rfl rfl
        hchecked
  | true =>
      exact roundTrips_of (fun w => entry.wrote (((Wrote.refl w).u8 1).array topic))
        ((u8_reads 1).bind <| good_reads.after <| (array_reads topic).bind <|
          (PeerEntry.reads hentry).map _) (by simp) rfl hchecked

theorem Topics.roundTrips {m : Topics} (hcursor : m.cursor < 2 ^ 32) (hlimit : m.limit < 2 ^ 8) :
    RoundTrips m.encode Topics.decode
      { m with limit := if m.limit = 0 then 100 else m.limit } := by
  refine roundTrips_of (fun w => ((Wrote.refl w).u32 m.cursor).u8 (UInt8.ofNat m.limit))
    ((u32_reads hcursor).bind <| (u8_reads (UInt8.ofNat m.limit)).bind <| good_pure _) ?_ ?_ ?_
  · simp only [List.nil_append, List.append_nil]
  · rw [toNat_byte hlimit]
  · exact checked_bind fun _ => checked_bind fun _ => checked_good.map _

/-- The bytes of a page of topics. -/
def TopicsOk.image (m : TopicsOk) : Bytes :=
  beBytes 4 m.nextCursor ++ (beBytes 2 (m.topics.take 0xFFFF).length ++
    (m.topics.take 0xFFFF).flatMap TopicSummary.image)

theorem TopicsOk.wrote (m : TopicsOk) (w : Writer) : Wrote w (m.encode w) m.image := by
  have hall := Wrote.foldl (fun t h => t.wrote h)
    (((Wrote.refl w).u32 m.nextCursor).u16 (m.topics.take 0xFFFF).length) (m.topics.take 0xFFFF)
  simp only [List.nil_append, List.append_assoc] at hall
  unfold TopicsOk.encode
  dsimp only
  rw [take_capped, capped_length]
  exact hall

theorem TopicsOk.length_image (m : TopicsOk) :
    m.image.length = 6 + 25 * (m.topics.take 0xFFFF).length := by
  have hlen : ((m.topics.take 0xFFFF).flatMap TopicSummary.image).length =
      25 * (m.topics.take 0xFFFF).length := by
    rw [List.length_flatMap, List.map_congr_left fun t _ => t.length_image, List.map_const',
      List.sum_replicate_nat, Nat.mul_comm]
  rw [TopicsOk.image, List.length_append, List.length_append, length_beBytes, length_beBytes, hlen]
  omega

/-- A page that fits a frame has no more topics than the decoder allows. -/
theorem TopicsOk.roundTrips {m : TopicsOk} (hcursor : m.nextCursor < 2 ^ 32)
    (htopics : ∀ t ∈ m.topics, t.Wf) : RoundTrips m.encode TopicsOk.decode m := by
  intro w hw hframe hok
  obtain ⟨-, hwritten, hcap, hroom⟩ := (m.wrote w).good hok
  have hfits := hroom hw
  have hcount : (m.topics.take 0xFFFF).length ≤ kMaxFrame / 25 := by
    rw [hwritten, hcap, List.length_append, m.length_image] at hfits
    have hk : kMaxFrame / 25 = 1310 := by decide
    have hk' : kMaxFrame = 32768 := by decide
    omega
  have hwhole : m.topics.take 0xFFFF = m.topics := by
    have hk : kMaxFrame / 25 = 1310 := by decide
    rw [List.length_take] at hcount
    exact List.take_of_length_le (by omega)
  rw [TopicsOk.image, hwhole] at hwritten
  rw [hwhole] at hcount
  have hloop := times_reads (d := TopicSummary.decode) fun t (ht : t ∈ m.topics) =>
    TopicSummary.reads (htopics t ht)
  rw [List.map_id'] at hloop
  have hn : m.topics.length < 2 ^ 16 := Nat.lt_of_le_of_lt hcount (by decide)
  have hreads : TopicsOk.decode.Reads _ m :=
    (u32_reads hcursor).bind <| (u16_reads hn).bind <| good_reads.after <|
      (require_reads hcount).after <| hloop.map _
  have hchecked : TopicsOk.decode.Checked :=
    checked_bind fun _ => checked_bind fun _ => checked_good.bind fun _ =>
      Keeps.bind (keeps_require _) fun _ =>
        Keeps.bind (TopicSummary.checked.times _) fun _ => keeps_pure _
  exact ⟨_, hwritten, hreads.whole, fun p q heq hq => hreads.refuses hchecked heq hq⟩

theorem StatsOk.roundTrips {m : StatsOk} (h : ∀ v ∈ m.values, v < 2 ^ 64) :
    RoundTrips m.encode StatsOk.decode m := by
  have hloop := times_reads (d := u64) fun v (hv : v ∈ m.values) => u64_reads (h v hv)
  rw [List.map_id'] at hloop
  refine roundTrips_of
    (fun w => Wrote.foldl (fun v h => h.u64 v) (Wrote.refl w) m.values)
    (hloop.bind (k := fun vs => good >>= fun _ => pure (StatsOk.ofValues vs)) <| good_pure _)
    ?_ rfl ?_
  · simp only [List.nil_append, List.append_nil]
  · exact checked_bind fun _ => checked_good.map _

/-! ## Introductions and relays

The bodies with a payload, and those of fixed size. -/

theorem Connect.roundTrips (m : Connect) :
    RoundTrips m.encode Connect.decode { m with payload := m.payload.take kMaxRelayPayload } := by
  have hle : (m.payload.take kMaxRelayPayload).length ≤ kMaxRelayPayload := List.length_take_le _ _
  refine roundTrips_of
    (fun w => (((Wrote.refl w).array m.fromDev).array m.toDev).blob m.payload kMaxRelayPayload)
    ((array_reads m.fromDev).bind <| (array_reads m.toDev).bind <|
      (u16_reads (Nat.lt_of_le_of_lt hle (by decide))).bind <| good_reads.after <|
      (require_reads hle).after <| (bytes_reads (m.payload.take kMaxRelayPayload)).bind <|
      good_pure _) ?_ rfl ?_
  · simp only [List.nil_append, List.append_assoc, List.append_nil, blobImage]
  · exact checked_bind fun _ => checked_bind fun _ => checked_bind fun _ => checked_bind fun _ =>
      checked_bind fun _ => checked_bind fun _ => checked_good.map _

theorem Relayed.reads (m : Relayed) :
    Relayed.decode.Reads (m.fromDev.toList ++ blobImage kMaxRelayPayload m.payload)
      { m with payload := m.payload.take kMaxRelayPayload } :=
  (array_reads m.fromDev).bind <| (readBlob_reads (by decide) m.payload).map _

theorem Relayed.roundTrips (m : Relayed) :
    RoundTrips m.encode Relayed.decode { m with payload := m.payload.take kMaxRelayPayload } := by
  refine roundTrips_of
    (fun w => ((Wrote.refl w).array m.fromDev).blob m.payload kMaxRelayPayload) m.reads ?_ rfl ?_
  · simp only [List.nil_append]
  · exact checked_bind fun _ => Checked.map (checked_readBlob _) _

theorem RelayAlloc.roundTrips (m : RelayAlloc) : RoundTrips m.encode RelayAlloc.decode m := by
  refine roundTrips_of
    (fun w => (((Wrote.refl w).array m.fromDev).array m.peerDev).u8 m.kind.code)
    ((array_reads m.fromDev).bind <| (array_reads m.peerDev).bind <|
      (readKind_reads m.kind).bind <| good_pure _) ?_ rfl ?_
  · simp only [List.nil_append, List.append_assoc, List.append_nil]
  · exact checked_bind fun _ => checked_bind fun _ => checked_bind fun _ => checked_good.map _

theorem RelayAllocOk.roundTrips {m : RelayAllocOk} (hid : m.relayId < 2 ^ 64)
    (hkib : m.maxKib < 2 ^ 32) : RoundTrips m.encode RelayAllocOk.decode m := by
  refine roundTrips_of
    (fun w => ((((Wrote.refl w).u64 m.relayId).array m.token).u8 m.kind.code).u32 m.maxKib)
    ((u64_reads hid).bind <| (array_reads m.token).bind <| (readKind_reads m.kind).bind <|
      (u32_reads hkib).bind <| good_pure _) ?_ rfl ?_
  · simp only [List.nil_append, List.append_assoc, List.append_nil]
  · exact checked_bind fun _ => checked_bind fun _ => checked_bind fun _ => checked_bind fun _ =>
      checked_good.map _

/-- The bytes of an offer. -/
def RelayOffer.image (m : RelayOffer) : Bytes :=
  beBytes 8 m.relayId ++ (m.token.toList ++ ([m.kind.code] ++ (m.fromDev.toList ++ m.topic.toList)))

theorem RelayOffer.wrote (m : RelayOffer) (w : Writer) : Wrote w (m.encode w) m.image := by
  have hall := (((((Wrote.refl w).u64 m.relayId).array m.token).u8 m.kind.code).array
    m.fromDev).array m.topic
  simp only [List.nil_append, List.append_assoc] at hall
  exact hall

/-- Of an id, what fits its field comes back. -/
theorem RelayOffer.reads (m : RelayOffer) :
    RelayOffer.decode.Reads m.image { m with relayId := m.relayId % 2 ^ 64 } := by
  have hid : u64.Reads (beBytes 8 m.relayId) (m.relayId % 2 ^ 64) := uint_reads 8 m.relayId
  have hall : RelayOffer.decode.Reads _ _ :=
    hid.bind <| (array_reads m.token).bind <| (readKind_reads m.kind).bind <|
      (array_reads m.fromDev).bind <| (array_reads m.topic).bind <| good_pure _
  rwa [List.append_nil] at hall

theorem RelayOffer.roundTrips {m : RelayOffer} (hid : m.relayId < 2 ^ 64) :
    RoundTrips m.encode RelayOffer.decode m := by
  refine roundTrips_of m.wrote m.reads rfl ?_ ?_
  · rw [Nat.mod_eq_of_lt hid]
  · exact checked_bind fun _ => checked_bind fun _ => checked_bind fun _ => checked_bind fun _ =>
      checked_bind fun _ => checked_good.map _

theorem RelayJoin.roundTrips {m : RelayJoin} (hid : m.relayId < 2 ^ 64) :
    RoundTrips m.encode RelayJoin.decode m := by
  refine roundTrips_of (fun w => ((Wrote.refl w).u64 m.relayId).array m.token)
    ((u64_reads hid).bind <| (array_reads m.token).bind <| good_pure _) ?_ rfl ?_
  · simp only [List.nil_append, List.append_nil]
  · exact checked_bind fun _ => checked_bind fun _ => checked_good.map _

/-- The bytes of a datagram that is passed on. -/
def RelayData.image (m : RelayData) : Bytes :=
  beBytes 8 m.relayId ++ blobImage kMaxDatagram m.payload

theorem RelayData.wrote (m : RelayData) (w : Writer) : Wrote w (m.encode w) m.image := by
  have hall := ((Wrote.refl w).u64 m.relayId).blob m.payload kMaxDatagram
  rw [List.nil_append] at hall
  exact hall

theorem RelayData.reads {m : RelayData} (hid : m.relayId < 2 ^ 64) :
    RelayData.decode.Reads m.image { m with payload := m.payload.take kMaxDatagram } :=
  (u64_reads hid).bind <| (readBlob_reads (by decide) m.payload).map _

theorem RelayData.roundTrips {m : RelayData} (hid : m.relayId < 2 ^ 64) :
    RoundTrips m.encode RelayData.decode { m with payload := m.payload.take kMaxDatagram } := by
  refine roundTrips_of m.wrote (RelayData.reads hid) rfl rfl ?_
  exact checked_bind fun _ => Checked.map (checked_readBlob _) _

/-! ## Errors and datagrams

What is left: the error, and the messages that travel without a frame. -/

/-- The bytes of an error. -/
def Error.image (m : Error) : Bytes :=
  beBytes 2 m.code ++ ([UInt8.ofNat (m.reason.take 255).length] ++ m.reason.take 255)

theorem Error.wrote (m : Error) (w : Writer) : Wrote w (m.encode w) m.image := by
  have hall := (((Wrote.refl w).u16 m.code).u8
    (UInt8.ofNat (m.reason.take 255).length)).bytes (m.reason.take 255)
  simp only [List.nil_append, List.append_assoc] at hall
  unfold Error.encode
  dsimp only
  rw [take_capped, capped_length]
  exact hall

theorem Error.roundTrips {m : Error} (hcode : m.code < 2 ^ 16) :
    RoundTrips m.encode Error.decode { m with reason := m.reason.take 255 } := by
  have hle : (m.reason.take 255).length ≤ 255 := List.length_take_le _ _
  have hn := toNat_byte (Nat.lt_of_le_of_lt hle (show 255 < 2 ^ 8 by decide))
  have hreason := bytes_reads (m.reason.take 255)
  refine roundTrips_of m.wrote
    ((u16_reads hcode).bind <| (u8_reads (UInt8.ofNat (m.reason.take 255).length)).bind <|
      (hn.symm ▸ hreason).bind <| good_pure _) ?_ rfl ?_
  · rw [List.append_nil, Error.image]
  · exact checked_bind fun _ => checked_bind fun _ => checked_bind fun _ => checked_good.map _

theorem WhoAmIOk.roundTrips {m : WhoAmIOk} (hnonce : m.nonce < 2 ^ 64)
    (hmapped : m.mapped.normal = m.mapped) : RoundTrips m.encode WhoAmIOk.decode m := by
  refine roundTrips_of (fun w => ((Wrote.refl w).u64 m.nonce).endpoint m.mapped)
    ((u64_reads hnonce).bind <| (endpoint_reads m.mapped).bind <| good_pure _) ?_ ?_ ?_
  · simp only [List.nil_append, List.append_nil]
  · rw [hmapped]
  · exact checked_bind fun _ => checked_bind fun _ => checked_good.map _

theorem UdpRelayBind.roundTrips {m : UdpRelayBind} (hid : m.relayId < 2 ^ 64) :
    RoundTrips m.encode UdpRelayBind.decode m := by
  refine roundTrips_of (fun w => ((Wrote.refl w).u64 m.relayId).array m.token)
    ((u64_reads hid).bind <| (array_reads m.token).bind <| good_pure _) ?_ rfl ?_
  · simp only [List.nil_append, List.append_nil]
  · exact checked_bind fun _ => checked_bind fun _ => checked_good.map _

theorem UdpRelayBindOk.roundTrips {m : UdpRelayBindOk} (hid : m.relayId < 2 ^ 64) :
    RoundTrips m.encode UdpRelayBindOk.decode m := by
  refine roundTrips_of (fun w => (Wrote.refl w).u64 m.relayId)
    ((u64_reads hid).bind <| good_pure _) ?_ rfl ?_
  · simp only [List.nil_append, List.append_nil]
  · exact checked_bind fun _ => checked_good.map _

theorem Probe.roundTrips (m : Probe) : RoundTrips m.encode Probe.decode m := by
  refine roundTrips_of (fun w => ((Wrote.refl w).array m.txn).array m.tag)
    ((array_reads m.txn).bind <| (array_reads m.tag).bind <| good_pure _) ?_ rfl ?_
  · simp only [List.nil_append, List.append_nil]
  · exact checked_bind fun _ => checked_bind fun _ => checked_good.map _

theorem ProbeOk.roundTrips {m : ProbeOk} (hmapped : m.mapped.normal = m.mapped) :
    RoundTrips m.encode ProbeOk.decode m := by
  refine roundTrips_of (fun w => (((Wrote.refl w).array m.txn).endpoint m.mapped).array m.tag)
    ((array_reads m.txn).bind <| (endpoint_reads m.mapped).bind <| (array_reads m.tag).bind <|
      good_pure _) ?_ ?_ ?_
  · simp only [List.nil_append, List.append_assoc, List.append_nil]
  · rw [hmapped]
  · exact checked_bind fun _ => checked_bind fun _ => checked_bind fun _ => checked_good.map _

/-- The nonce is all a decoder reads; the encoder pads what it has written to
the full size. -/
theorem WhoAmI.wrote_pad (fuel : Nat) (w : Writer) :
    Wrote w (WhoAmI.pad fuel w) (List.replicate (min fuel (kWhoAmISize - w.written.length)) 0) := by
  induction fuel generalizing w with
  | zero => exact (Nat.zero_min _).symm ▸ Wrote.refl w
  | succ fuel ih =>
      have hbyte := (Wrote.refl w).u8 0
      have hsize : (w.u8 0).ok = true → (w.u8 0).written.length = w.written.length + 1 := by
        intro hok
        rw [(hbyte.good hok).2.1, List.nil_append, List.length_append, List.length_singleton]
      have hcount : w.written.length < kWhoAmISize →
          min (fuel + 1) (kWhoAmISize - w.written.length) =
            min fuel (kWhoAmISize - (w.written.length + 1)) + 1 := by omega
      unfold WhoAmI.pad
      split
      · rename_i hmore
        obtain ⟨hshort, hgood⟩ := Bool.and_eq_true_iff.mp hmore
        have hlt := of_decide_eq_true hshort
        refine ⟨fun hok => ?_, fun _ hroom => ?_⟩
        · obtain ⟨hok', hrest, hcap, hroom⟩ := (ih (w.u8 0)).good hok
          obtain ⟨-, hwritten, hcap', hroom'⟩ := hbyte.good hok'
          refine ⟨hgood, ?_, hcap.trans hcap', fun hw => hroom (hroom' hw)⟩
          rw [hrest, hsize hok', hwritten, hcount hlt, List.replicate_succ, List.nil_append,
            List.append_assoc]
          rfl
        · rw [hcount hlt, List.length_replicate] at hroom
          have hok' : (w.u8 0).ok = true := hbyte.room hgood (by simp; omega)
          refine (ih (w.u8 0)).room hok' ?_
          rw [hsize hok', (hbyte.good hok').2.2.1, List.length_replicate]
          omega
      · rename_i hdone
        refine ⟨fun hok => ?_, fun hok _ => hok⟩
        have hzero : kWhoAmISize - w.written.length = 0 := by
          simp only [hok, Bool.and_true, decide_eq_true_eq] at hdone
          omega
        rw [hzero, Nat.min_zero]
        exact (Wrote.refl w).good hok

theorem WhoAmI.reads {m : WhoAmI} (hnonce : m.nonce < 2 ^ 64) :
    WhoAmI.decode.Reads (beBytes 8 m.nonce) m := by
  have hall : WhoAmI.decode.Reads _ m := (u64_reads hnonce).bind <| good_pure _
  rwa [List.append_nil] at hall

theorem WhoAmI.checked : WhoAmI.decode.Checked := checked_bind fun _ => checked_good.map _

theorem WhoAmI.encode_ok {m : WhoAmI} {w : Writer} (hok : (m.encode w).ok = true) :
    (m.encode w).written = w.written ++ beBytes 8 m.nonce ++
      List.replicate (kWhoAmISize - (w.written.length + 8)) 0 := by
  obtain ⟨hok', hpad, -, -⟩ := (WhoAmI.wrote_pad kWhoAmISize (w.u64 m.nonce)).good hok
  obtain ⟨-, hnonce, -, -⟩ := ((Wrote.refl w).u64 m.nonce).good hok'
  have hsize : (w.u64 m.nonce).written.length = w.written.length + 8 := by
    rw [hnonce, List.nil_append, List.length_append, length_beBytes]
  rw [WhoAmI.encode, hpad, hsize, Nat.min_eq_right (Nat.sub_le _ _), hnonce, List.nil_append]

/-- A transport packet is read to its end. -/
theorem Wire.Transport.decoder_image {t : Transport} (hconn : t.connId < 2 ^ 32)
    (hcounter : t.counter < 2 ^ 64) :
    Transport.decoder.run { rest := t.image } = some (t, { rest := [] }) := by
  have hlast : Decoder.remaining.run { rest := t.ciphertext } =
      some (t.ciphertext, { rest := [] }) :=
    congrArg some (Reader.bytes_remaining t.ciphertext)
  unfold Transport.decoder Transport.image
  rw [List.append_assoc, run_bind, (u32_reads hconn).whole, Option.bind_some, run_bind,
    (u64_reads hcounter).whole, Option.bind_some, run_bind]
  show (Option.some _).bind _ = _
  rw [Option.bind_some, run_bind, hlast]
  rfl

end UConnect
