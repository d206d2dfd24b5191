/-
  Wire/Control.lean --- the messages of the control protocol and of the datagram
  channel.

  Source: src/wire/control.hpp and src/wire/control.cpp, and
  src/wire/messages.hpp and src/wire/messages.cpp.

  Encoders apply the caps of the format to what they write; decoders check
  them.  The two flags that travel in the header, `unlisted` and `want_meta`,
  are not part of a body: an encoder does not write them and a decoder takes the
  header.
-/
import UConnect.Wire.Codec

set_option autoImplicit false

namespace UConnect

open UConnect.Foundation UConnect.Wire

/-! ## Constants and enumerators

Every enumerator keeps the value it has on the wire.  The source casts in both
directions; a cast into an enumeration is only made behind a range check, so the
functions that stand for it here are total and their value outside the range is
never looked at. -/

namespace Wire

/-- `ctl::kVersion`, the version byte of every message of the control connection
and of the relays.  The datagram channel between two peers writes 1 there. -/
def ctlVersion : UInt8 := 2
/-- `ctl::kWhoAmISize`: the size a WhoAmI request is padded to, so that the
reply is never larger than what provoked it. -/
def kWhoAmISize : Nat := 48

/-- `flags::kUnlisted`, set in the header of a Register whose topic is to stay
out of the listing. -/
def kUnlisted : UInt8 := 1
/-- `flags::kWantMeta`, set in the header of a Lookup that asks for metadata
too. -/
def kWantMeta : UInt8 := 2
/-- `flags::kStale`.  The flags of the header are of the message; this one
stands in the flag byte of a single directory entry. -/
def kStale : UInt8 := 1

end Wire

/-- The value of a `TopicMode` enumerator, which is also its byte on the wire. -/
def TopicMode.code : TopicMode → UInt8
  | .open => 0
  | .keyed => 1

/-- `static_cast<TopicMode>` of a value in range.  `readMode` lets only 0 and 1
through. -/
def TopicMode.ofCode (b : UInt8) : TopicMode := if b = 0 then .open else .keyed

/-- The value of a `RelayKind` enumerator, which is also its byte on the wire. -/
def RelayKind.code : RelayKind → UInt8
  | .tcp => 0
  | .udp => 1

/-- `static_cast<RelayKind>` of a value in range.  `readKind` lets only 0 and 1
through. -/
def RelayKind.ofCode (b : UInt8) : RelayKind := if b = 0 then .tcp else .udp

/-- The value of an `ErrorCode` enumerator.  It is written as two bytes, and
what is read back is never checked against the enumeration. -/
def ErrorCode.code : ErrorCode → Nat
  | .none => 0
  | .badRequest => 1
  | .badAuth => 2
  | .notFound => 3
  | .rateLimited => 4
  | .quotaExceeded => 5
  | .needCookie => 6
  | .unsupported => 7

/-! ## Messages

A message is a header and a body in one buffer of `kMaxFrame` bytes.  It is what
travels in a frame over TCP and bare in a datagram over UDP. -/

namespace Wire

/-- `ctl::message`: the header and a body, empty if they do not fit a frame.
The template's type is here the function `body` that writes the value; the
writer latches its flag once something does not fit, and nothing of such a
message is sent. -/
def message (type : MsgType) (txn : Nat) (body : Writer → Writer) (flags : UInt8 := 0) : Bytes :=
  let h : Header := { type := type, version := ctlVersion, flags := flags, txnId := txn }
  let w := body (h.encode { capacity := kMaxFrame })
  if !w.ok then [] else w.written

/-- `ctl::empty_message`: a message with no body.  The buffer is exactly the
header's size, so unlike `message` it cannot fail. -/
def emptyMessage (type : MsgType) (txn : Nat) (flags : UInt8 := 0) : Bytes :=
  let h : Header := { type := type, version := ctlVersion, flags := flags, txnId := txn }
  (h.encode { capacity := Header.kSize }).written

namespace MsgType

/-- `MsgType::Register`, a request of a node for a record of its own under a
topic. -/
def register : MsgType := 0x01
/-- `MsgType::RegisterOk`, the reply that names the record. -/
def registerOk : MsgType := 0x02
/-- `MsgType::Keepalive`, for one record or, without a body, for the connection
alone. -/
def keepalive : MsgType := 0x03
/-- `MsgType::KeepaliveOk`, with the address the server sees. -/
def keepaliveOk : MsgType := 0x04
/-- `MsgType::Update`, new candidates and new metadata for a record. -/
def update : MsgType := 0x05
/-- `MsgType::UpdateOk`, which has no body. -/
def updateOk : MsgType := 0x06
/-- `MsgType::Unregister`, the end of a record. -/
def unregister : MsgType := 0x07
/-- `MsgType::UnregisterOk`, which has no body. -/
def unregisterOk : MsgType := 0x08
/-- `MsgType::Lookup`, a sample of the peers of a topic. -/
def lookup : MsgType := 0x09
/-- `MsgType::LookupOk`, the sample and the size of the topic. -/
def lookupOk : MsgType := 0x0A
/-- `MsgType::Resolve`, one record by its device. -/
def resolve : MsgType := 0x0B
/-- `MsgType::ResolveOk`, the record if there is one. -/
def resolveOk : MsgType := 0x0C
/-- `MsgType::Topics`, one page of the listing. -/
def topics : MsgType := 0x0D
/-- `MsgType::TopicsOk`, the page and where the next one starts. -/
def topicsOk : MsgType := 0x0E
/-- `MsgType::Stats`, which has no body. -/
def stats : MsgType := 0x0F
/-- `MsgType::StatsOk`, the counters of the server. -/
def statsOk : MsgType := 0x10
/-- `MsgType::Connect`, an introduction to be passed on. -/
def connect : MsgType := 0x11
/-- `MsgType::Relayed`, the introduction as the other peer receives it. -/
def relayed : MsgType := 0x12
/-- `MsgType::Error`, the reply to a request that was refused. -/
def error : MsgType := 0x14
/-- `MsgType::RelayAlloc`, a request for a relay to a peer. -/
def relayAlloc : MsgType := 0x15
/-- `MsgType::RelayAllocOk`, the allocator's side of the relay. -/
def relayAllocOk : MsgType := 0x16
/-- `MsgType::RelayData`, a datagram through a UDP relay. -/
def relayData : MsgType := 0x17
/-- `MsgType::RelayOffer`, pushed to the peer a relay was allocated to reach. -/
def relayOffer : MsgType := 0x18
/-- `MsgType::WhoAmI`, a datagram that asks for the sender's UDP mapping. -/
def whoAmI : MsgType := 0x1B
/-- `MsgType::WhoAmIOk`, the mapping. -/
def whoAmIOk : MsgType := 0x1C
/-- `MsgType::UdpRelayBind`, a datagram that claims one side of a UDP relay. -/
def udpRelayBind : MsgType := 0x1D
/-- `MsgType::UdpRelayBindOk`, the answer to it, smaller than the request. -/
def udpRelayBindOk : MsgType := 0x1E

end MsgType

end Wire

/-- `to_string`, the text the server puts into the reason of an Error when the
handler has none of its own. -/
def ErrorCode.text : ErrorCode → String
  | .none => "none"
  | .badRequest => "bad request"
  | .badAuth => "bad auth"
  | .notFound => "not found"
  | .rateLimited => "rate limited"
  | .quotaExceeded => "quota exceeded"
  | .needCookie => "address not validated"
  | .unsupported => "unsupported"

/-! ## Parts of messages

The parts several bodies share, each with its cap.  A count is checked before
anything is read under it; the encoder cuts what it is given at the same cap, so
that what it writes is never refused for its length. -/

namespace Wire

open Decoder

/-- `write_cands`: at most `kMaxCandidates` of them, the first ones, after their
number. -/
def writeCands (w : Writer) (c : List Candidate) : Writer :=
  let n := if c.length > kMaxCandidates then kMaxCandidates else c.length
  (w.u8 (UInt8.ofNat n)).candidates (c.take n)

/-- `write_blob16_capped`: at most `cap` bytes, the first ones, after their
number in two bytes. control.cpp has the same code in place for metadata and for
payloads. -/
def writeBlob16Capped (w : Writer) (v : Bytes) (cap : Nat) : Writer :=
  let n := if v.length > cap then cap else v.length
  (w.u16 n).bytes (v.take n)

/-- `write_meta`: metadata, cut at `kMaxMeta` bytes. -/
def writeMeta (w : Writer) (m : Bytes) : Writer := writeBlob16Capped w m kMaxMeta

/-- `read_vec`: a count of at most `max` and that many values.  The loop of the
source stops as soon as the reader's flag has latched, and only then is the flag
looked at. -/
def readVec {α : Type} (max : Nat) (readOne : Decoder α) : Decoder (List α) := do
  let n ← u8
  require (n.toNat ≤ max)
  let out ← timesWhileOk readOne n.toNat
  good
  return out

/-- `read_cands`: a list of at most `kMaxCandidates` candidates. -/
def readCands : Decoder (List Candidate) := readVec kMaxCandidates candidate

/-- `read_blob16_capped`: a length of at most `cap` and that many bytes.  When
the length itself is cut off it reads as zero, and the flag that `good` looks at
has latched. -/
def readBlob16Capped (cap : Nat) : Decoder Bytes := do
  let n ← u16
  require (n ≤ cap)
  let s ← bytes n
  good
  return s

/-- `read_meta`: metadata of at most `kMaxMeta` bytes. -/
def readMeta : Decoder Bytes := readBlob16Capped kMaxMeta

/-- `read_mode`.  A mode the enumeration does not have is malformed; the flag is
not looked at here, since a byte that is missing reads as 0. -/
def readMode : Decoder TopicMode := do
  let m ← u8
  require (m ≤ TopicMode.keyed.code)
  return TopicMode.ofCode m

/-- `read_kind`, which refuses as `read_mode` does. -/
def readKind : Decoder RelayKind := do
  let k ← u8
  require (k ≤ RelayKind.udp.code)
  return RelayKind.ofCode k

end Wire

open Decoder

/-! ## Registration

The bodies a node sends to have a record of its own, to keep it and to let it
go.  A record belongs to the connection that registered it, so that no body
carries a token. -/

/-- `Register::encode`.  `unlisted` is a flag of the header and not written
here. -/
def Register.encode (m : Register) (w : Writer) : Writer :=
  let w := ((w.array m.id).u8 m.mode.code).u8 (UInt8.ofNat m.keyEpoch)
  writeMeta (writeCands w m.hostCands) m.«meta»

/-- `Register::decode`.  The body does not look at the flag after the epoch: the
candidates that follow do. -/
def Register.decode (h : Header) : Decoder Register := do
  let id ← array 16
  let mode ← readMode
  let keyEpoch ← u8
  let hostCands ← readCands
  let «meta» ← readMeta
  return { id := id, mode := mode, keyEpoch := keyEpoch.toNat
           unlisted := h.flags &&& kUnlisted != 0, hostCands := hostCands, «meta» := «meta» }

/-- `RegisterOk`: the record's device, the address the server sees the
connection come from, and how many peers the topic has, cut at what two bytes
hold. -/
structure RegisterOk where
  devId : DevId
  srflx : Endpoint
  peersInTopic : Nat
  deriving DecidableEq

/-- `RegisterOk::encode`, of fixed size but for the family of the address. -/
def RegisterOk.encode (m : RegisterOk) (w : Writer) : Writer :=
  ((w.array m.devId).endpoint m.srflx).u16 m.peersInTopic

/-- `RegisterOk::decode`: the flag is looked at once, behind the last field. -/
def RegisterOk.decode : Decoder RegisterOk := do
  let devId ← array 16
  let srflx ← endpoint
  let peersInTopic ← u16
  good
  return { devId := devId, srflx := srflx, peersInTopic := peersInTopic }

/-- `DevRef`, the body of a Keepalive and of an Unregister. -/
structure DevRef where
  devId : DevId
  deriving DecidableEq

/-- `DevRef::encode`, the device alone. -/
def DevRef.encode (m : DevRef) (w : Writer) : Writer := w.array m.devId

/-- `DevRef::decode`.  An empty body is refused here; the Keepalive without one
is told apart by the handler, before it decodes. -/
def DevRef.decode : Decoder DevRef := do
  let devId ← array 16
  good
  return { devId := devId }

/-- `KeepaliveOk`: the address the server sees, so that a node notices when it
moves. -/
structure KeepaliveOk where
  srflx : Endpoint
  deriving DecidableEq

/-- `KeepaliveOk::encode`, the address alone. -/
def KeepaliveOk.encode (m : KeepaliveOk) (w : Writer) : Writer := w.endpoint m.srflx

/-- `KeepaliveOk::decode`: the flag is looked at behind the address. -/
def KeepaliveOk.decode : Decoder KeepaliveOk := do
  let srflx ← endpoint
  good
  return { srflx := srflx }

/-- `Update::encode`: the device, then the same lists as a Register, under the
same caps. -/
def Update.encode (m : Update) (w : Writer) : Writer :=
  writeMeta (writeCands (w.array m.devId) m.hostCands) m.«meta»

/-- `Update::decode`.  As in a Register the lists look at the flag, the device
does not. -/
def Update.decode : Decoder Update := do
  let devId ← array 16
  let hostCands ← readCands
  let «meta» ← readMeta
  return { devId := devId, hostCands := hostCands, «meta» := «meta» }

/-! ## Directory entries

What a lookup, a resolve and a listing say of a record and of a topic. -/

/-- `PeerEntry::encode`.  The age is cut at what two bytes hold by the one who
fills it in, and `stale` is one bit of a byte of flags. -/
def PeerEntry.encode (m : PeerEntry) (w : Writer) : Writer :=
  let w := ((w.array m.devId).u16 m.ageSecs).u8 (if m.stale then kStale else 0)
  writeMeta (writeCands w m.cands) m.«meta»

/-- `PeerEntry::encoded_size`: the bytes `encode` writes, with the caps it
applies.  A handler stops adding entries to a reply when the next would not fit. -/
def PeerEntry.encodedSize (m : PeerEntry) : Nat :=
  let n := 16 + 2 + 1 + 1
  let c := if m.cands.length > kMaxCandidates then kMaxCandidates else m.cands.length
  let n := (m.cands.take c).foldl (fun n cand => n + (2 + cand.ep.ip.addrLen + 2)) n
  n + (2 + if m.«meta».length > kMaxMeta then kMaxMeta else m.«meta».length)

/-- `PeerEntry::decode`.  Bits of the flag byte other than `kStale` are ignored. -/
def PeerEntry.decode : Decoder PeerEntry := do
  let devId ← array 16
  let ageSecs ← u16
  let flags ← u8
  let cands ← readVec kMaxCandidates candidate
  let «meta» ← readBlob16Capped kMaxMeta
  return { devId := devId, ageSecs := ageSecs, stale := flags &&& kStale != 0, cands := cands
           «meta» := «meta» }

/-- `TopicSummary::encode`: 25 bytes, which is what the bound on a page counts
with. -/
def TopicSummary.encode (m : TopicSummary) (w : Writer) : Writer :=
  (((w.array m.id).u8 m.mode.code).u32 m.peers).u32 m.freshPeers

/-- `TopicSummary::decode`: a bad mode is refused before the counts are read. -/
def TopicSummary.decode : Decoder TopicSummary := do
  let id ← array 16
  let mode ← readMode
  let peers ← u32
  let freshPeers ← u32
  good
  return { id := id, mode := mode, peers := peers, freshPeers := freshPeers }

/-! ## Discovery

Questions about other peers, their replies, and the listing of topics.  A reply
is one frame however many entries it carries. -/

/-- `Lookup`: the topic, how many entries are wanted, and whether with their
metadata, which is a flag of the header. -/
structure Lookup where
  id : TopicId
  max : Nat := kLookupDefault
  wantMeta : Bool := false
  deriving DecidableEq

/-- `Lookup::encode`.  `max` is a byte in the source, and `want_meta` is not
written here. -/
def Lookup.encode (m : Lookup) (w : Writer) : Writer := (w.array m.id).u8 (UInt8.ofNat m.max)

/-- What a decoder makes of the number of entries asked for: none means the
default, and more than the ceiling gets the ceiling. -/
def Lookup.clamp (max : Nat) : Nat :=
  let max := if max = 0 then kLookupDefault else max
  if max > kLookupMax then kLookupMax else max

/-- `Lookup::decode`, which clamps and does not refuse. -/
def Lookup.decode (h : Header) : Decoder Lookup := do
  let id ← array 16
  let max ← u8
  good
  return { id := id, max := Lookup.clamp max.toNat, wantMeta := h.flags &&& kWantMeta != 0 }

/-- `LookupOk`: the mode of the topic, how many entries it has in all, and the
sample. -/
structure LookupOk where
  id : TopicId
  mode : TopicMode := .open
  total : Nat := 0
  entries : List PeerEntry := []
  deriving DecidableEq

/-- `LookupOk::encode`, at most `kLookupMax` entries. -/
def LookupOk.encode (m : LookupOk) (w : Writer) : Writer :=
  let w := ((w.array m.id).u8 m.mode.code).u16 m.total
  let n := if m.entries.length > kLookupMax then kLookupMax else m.entries.length
  (m.entries.take n).foldl (fun w e => e.encode w) (w.u8 (UInt8.ofNat n))

/-- `LookupOk::decode`.  The flag is looked at before the number of entries is
believed, and each entry looks at it again. -/
def LookupOk.decode : Decoder LookupOk := do
  let id ← array 16
  let mode ← readMode
  let total ← u16
  let n ← u8
  good
  require (n.toNat ≤ kLookupMax)
  let entries ← times PeerEntry.decode n.toNat
  return { id := id, mode := mode, total := total, entries := entries }

/-- `Resolve`: the device that is looked for. -/
structure Resolve where
  devId : DevId
  deriving DecidableEq

/-- `Resolve::encode`, the device alone. -/
def Resolve.encode (m : Resolve) (w : Writer) : Writer := w.array m.devId

/-- `Resolve::decode`: the flag is looked at behind the device. -/
def Resolve.decode : Decoder Resolve := do
  let devId ← array 16
  good
  return { devId := devId }

/-- `PeerEntry{}`, the entry of a ResolveOk that found nothing. -/
def PeerEntry.empty : PeerEntry :=
  { devId := Vector.replicate 16 0, ageSecs := 0, stale := false, cands := [], «meta» := [] }

/-- `ResolveOk`.  Topic and entry mean something only if `found` is set. -/
structure ResolveOk where
  found : Bool := false
  topic : TopicId := Vector.replicate 16 0
  entry : PeerEntry := PeerEntry.empty
  deriving DecidableEq

/-- `ResolveOk::encode`: one byte if nothing was found. -/
def ResolveOk.encode (m : ResolveOk) (w : Writer) : Writer :=
  let w := w.u8 (if m.found then 1 else 0)
  if !m.found then w else m.entry.encode (w.array m.topic)

/-- `ResolveOk::decode`.  Any byte but 0 says that something was found. -/
def ResolveOk.decode : Decoder ResolveOk := do
  let found ← u8
  good
  if found = 0 then return {}
  else
    let topic ← array 16
    let entry ← PeerEntry.decode
    return { found := true, topic := topic, entry := entry }

/-- `Topics`: where the page starts and how many topics it may have. -/
structure Topics where
  cursor : Nat := 0
  limit : Nat := 100
  deriving DecidableEq

/-- `Topics::encode`, of fixed size. -/
def Topics.encode (m : Topics) (w : Writer) : Writer := (w.u32 m.cursor).u8 (UInt8.ofNat m.limit)

/-- `Topics::decode`.  A limit of 0 stands for the default of 100. -/
def Topics.decode : Decoder Topics := do
  let cursor ← u32
  let limit ← u8
  good
  return { cursor := cursor, limit := if limit.toNat = 0 then 100 else limit.toNat }

/-- `TopicsOk`.  A `next_cursor` of 0 is the end of the listing. -/
structure TopicsOk where
  nextCursor : Nat := 0
  topics : List TopicSummary := []
  deriving DecidableEq

/-- `TopicsOk::encode`.  The count has two bytes; the handler never adds as
many. -/
def TopicsOk.encode (m : TopicsOk) (w : Writer) : Writer :=
  let w := w.u32 m.nextCursor
  let n := if m.topics.length > 0xFFFF then 0xFFFF else m.topics.length
  (m.topics.take n).foldl (fun w t => t.encode w) (w.u16 n)

/-- `TopicsOk::decode`.  Each summary is 25 bytes, so a frame cannot honestly
hold more than `kMaxFrame / 25` of them. -/
def TopicsOk.decode : Decoder TopicsOk := do
  let nextCursor ← u32
  let n ← u16
  good
  require (n ≤ kMaxFrame / 25)
  let topics ← times TopicSummary.decode n
  return { nextCursor := nextCursor, topics := topics }

/-- `StatsOk`: the counters of the registry, of the limiter and of the relays. -/
structure StatsOk where
  topicsTotal : Nat := 0
  topicsListed : Nat := 0
  entriesTotal : Nat := 0
  entriesFresh : Nat := 0
  registers : Nat := 0
  lookups : Nat := 0
  connects : Nat := 0
  expired : Nat := 0
  rejQuota : Nat := 0
  rejRateLimited : Nat := 0
  relaysOpen : Nat := 0
  relaysAllocated : Nat := 0
  relayBytes : Nat := 0
  connections : Nat := 0
  deriving DecidableEq

/-- The counters in the order both loops of the codec visit them. -/
def StatsOk.values (m : StatsOk) : List Nat :=
  [m.topicsTotal, m.topicsListed, m.entriesTotal, m.entriesFresh, m.registers, m.lookups,
    m.connects, m.expired, m.rejQuota, m.rejRateLimited, m.relaysOpen, m.relaysAllocated,
    m.relayBytes, m.connections]

/-- The counters from their values in that order. -/
def StatsOk.ofValues (vs : List Nat) : StatsOk :=
  { topicsTotal := vs.getD 0 0, topicsListed := vs.getD 1 0, entriesTotal := vs.getD 2 0
    entriesFresh := vs.getD 3 0, registers := vs.getD 4 0, lookups := vs.getD 5 0
    connects := vs.getD 6 0, expired := vs.getD 7 0, rejQuota := vs.getD 8 0
    rejRateLimited := vs.getD 9 0, relaysOpen := vs.getD 10 0, relaysAllocated := vs.getD 11 0
    relayBytes := vs.getD 12 0, connections := vs.getD 13 0 }

/-- `StatsOk::encode`, a loop over the counters, eight bytes each. -/
def StatsOk.encode (m : StatsOk) (w : Writer) : Writer := m.values.foldl Writer.u64 w

/-- `StatsOk::decode`, a loop over the same counters; the flag is looked at
behind the last. -/
def StatsOk.decode : Decoder StatsOk := do
  let vs ← times u64 14
  good
  return StatsOk.ofValues vs

/-! ## Introductions and relays

An introduction is opaque to the server.  Each side of a relay gets a token of
its own and joins with it: knowing the relay's id admits nobody. -/

/-- `Connect`: an introduction from one device to another. -/
structure Connect where
  fromDev : DevId
  toDev : DevId
  payload : Bytes
  deriving DecidableEq

/-- `Connect::encode`, with the payload cut at `kMaxRelayPayload`. -/
def Connect.encode (m : Connect) (w : Writer) : Writer :=
  writeBlob16Capped ((w.array m.fromDev).array m.toDev) m.payload kMaxRelayPayload

/-- `Connect::decode`.  The length is written out in place here, and unlike in
`readBlob16Capped` the flag is looked at before it is compared. -/
def Connect.decode : Decoder Connect := do
  let fromDev ← array 16
  let toDev ← array 16
  let n ← u16
  good
  require (n ≤ kMaxRelayPayload)
  let payload ← bytes n
  good
  return { fromDev := fromDev, toDev := toDev, payload := payload }

/-- `Relayed`: the introduction as it is delivered, without the receiver's
device. -/
structure Relayed where
  fromDev : DevId
  payload : Bytes
  deriving DecidableEq

/-- `Relayed::encode`, with the payload cut at `kMaxRelayPayload`. -/
def Relayed.encode (m : Relayed) (w : Writer) : Writer :=
  writeBlob16Capped (w.array m.fromDev) m.payload kMaxRelayPayload

/-- `Relayed::decode`: a payload over the cap is refused, not cut. -/
def Relayed.decode : Decoder Relayed := do
  let fromDev ← array 16
  let payload ← readBlob16Capped kMaxRelayPayload
  return { fromDev := fromDev, payload := payload }

/-- `RelayAlloc`: who asks, for a relay to whom, and of which kind. -/
structure RelayAlloc where
  fromDev : DevId
  peerDev : DevId
  kind : RelayKind := .tcp
  deriving DecidableEq

/-- `RelayAlloc::encode`, of fixed size. -/
def RelayAlloc.encode (m : RelayAlloc) (w : Writer) : Writer :=
  ((w.array m.fromDev).array m.peerDev).u8 m.kind.code

/-- `RelayAlloc::decode`: the kind is checked first, the flag behind it. -/
def RelayAlloc.decode : Decoder RelayAlloc := do
  let fromDev ← array 16
  let peerDev ← array 16
  let kind ← readKind
  good
  return { fromDev := fromDev, peerDev := peerDev, kind := kind }

/-- `RelayAllocOk`, the allocator's side of a relay, with the byte budget of the
binding. -/
structure RelayAllocOk where
  relayId : RelayId
  token : RelayToken
  kind : RelayKind := .tcp
  maxKib : Nat := 0
  deriving DecidableEq

/-- `RelayAllocOk::encode`, of fixed size. -/
def RelayAllocOk.encode (m : RelayAllocOk) (w : Writer) : Writer :=
  (((w.u64 m.relayId).array m.token).u8 m.kind.code).u32 m.maxKib

/-- `RelayAllocOk::decode`: the kind is checked between the token and the
budget. -/
def RelayAllocOk.decode : Decoder RelayAllocOk := do
  let relayId ← u64
  let token ← array 16
  let kind ← readKind
  let maxKib ← u32
  good
  return { relayId := relayId, token := token, kind := kind, maxKib := maxKib }

/-- `RelayOffer`, the other peer's side of a relay, and who asked for it under
which topic. -/
structure RelayOffer where
  relayId : RelayId
  token : RelayToken
  kind : RelayKind := .tcp
  fromDev : DevId
  topic : TopicId
  deriving DecidableEq

/-- `RelayOffer::encode`, of fixed size. -/
def RelayOffer.encode (m : RelayOffer) (w : Writer) : Writer :=
  ((((w.u64 m.relayId).array m.token).u8 m.kind.code).array m.fromDev).array m.topic

/-- `RelayOffer::decode`: the kind is checked between the token and the device. -/
def RelayOffer.decode : Decoder RelayOffer := do
  let relayId ← u64
  let token ← array 16
  let kind ← readKind
  let fromDev ← array 16
  let topic ← array 16
  good
  return { relayId := relayId, token := token, kind := kind, fromDev := fromDev, topic := topic }

/-- `RelayJoin`, the first and only framed message of a TCP relay connection. -/
structure RelayJoin where
  relayId : RelayId
  token : RelayToken
  deriving DecidableEq

/-- `RelayJoin::encode`, of fixed size. -/
def RelayJoin.encode (m : RelayJoin) (w : Writer) : Writer := (w.u64 m.relayId).array m.token

/-- `RelayJoin::decode`: the flag is looked at behind the token. -/
def RelayJoin.decode : Decoder RelayJoin := do
  let relayId ← u64
  let token ← array 16
  good
  return { relayId := relayId, token := token }

/-- `RelayData`: a datagram and the relay it goes through. -/
structure RelayData where
  relayId : RelayId
  payload : Bytes
  deriving DecidableEq

/-- `RelayData::encode`, with the payload cut at `kMaxDatagram`. -/
def RelayData.encode (m : RelayData) (w : Writer) : Writer :=
  writeBlob16Capped (w.u64 m.relayId) m.payload kMaxDatagram

/-- `RelayData::decode`: a payload over the cap is refused, not cut. -/
def RelayData.decode : Decoder RelayData := do
  let relayId ← u64
  let payload ← readBlob16Capped kMaxDatagram
  return { relayId := relayId, payload := payload }

/-! ## Errors

The reply to a request the server refused. -/

/-- `Error`; a code is any value of the enumeration's underlying type. -/
structure Error where
  code : Nat := ErrorCode.none.code
  reason : Bytes := []
  deriving DecidableEq

/-- `Error::encode`, with the reason cut at the 255 bytes its length can say. -/
def Error.encode (m : Error) (w : Writer) : Writer :=
  let n := if m.reason.length > 255 then 255 else m.reason.length
  ((w.u16 m.code).u8 (UInt8.ofNat n)).bytes (m.reason.take n)

/-- `Error::decode`.  Any code is accepted, also one the enumeration does not
have. -/
def Error.decode : Decoder Error := do
  let code ← u16
  let n ← u8
  let reason ← bytes n.toNat
  good
  return { code := code, reason := reason }

/-! ## Datagrams to and from the server

What the server answers without a connection.  The request for a mapping is
padded, so that no reply is larger than what provoked it. -/

/-- `WhoAmI`: a nonce that the reply repeats. -/
structure WhoAmI where
  nonce : Nat
  deriving DecidableEq

/-- `while (w.size() < kWhoAmISize && w.ok()) w.u8(0)`: every turn writes a byte
or latches the flag, so `fuel` turns of it are enough. -/
def WhoAmI.pad : Nat → Writer → Writer
  | 0, w => w
  | fuel + 1, w => if w.written.length < kWhoAmISize && w.ok then pad fuel (w.u8 0) else w

/-- `WhoAmI::encode`: the nonce, and zeros up to `kWhoAmISize`. -/
def WhoAmI.encode (m : WhoAmI) (w : Writer) : Writer := WhoAmI.pad kWhoAmISize (w.u64 m.nonce)

/-- `WhoAmI::decode`.  The padding is neither read nor asked for; the handler
looks at the size. -/
def WhoAmI.decode : Decoder WhoAmI := do
  let nonce ← u64
  good
  return { nonce := nonce }

/-- `WhoAmIOk`: the address the request came from. -/
structure WhoAmIOk where
  nonce : Nat
  mapped : Endpoint
  deriving DecidableEq

/-- `WhoAmIOk::encode`, shorter than the request in either family. -/
def WhoAmIOk.encode (m : WhoAmIOk) (w : Writer) : Writer := (w.u64 m.nonce).endpoint m.mapped

/-- `WhoAmIOk::decode`: the flag is looked at behind the address. -/
def WhoAmIOk.decode : Decoder WhoAmIOk := do
  let nonce ← u64
  let mapped ← endpoint
  good
  return { nonce := nonce, mapped := mapped }

/-- `UdpRelayBind`: one side of a UDP relay is to be where this comes from. -/
structure UdpRelayBind where
  relayId : RelayId
  token : RelayToken
  deriving DecidableEq

/-- `UdpRelayBind::encode`, of fixed size. -/
def UdpRelayBind.encode (m : UdpRelayBind) (w : Writer) : Writer :=
  (w.u64 m.relayId).array m.token

/-- `UdpRelayBind::decode`: the flag is looked at behind the token. -/
def UdpRelayBind.decode : Decoder UdpRelayBind := do
  let relayId ← u64
  let token ← array 16
  good
  return { relayId := relayId, token := token }

/-- `UdpRelayBindOk`, the answer to a bind that was accepted. -/
structure UdpRelayBindOk where
  relayId : RelayId
  deriving DecidableEq

/-- `UdpRelayBindOk::encode`, shorter than the request. -/
def UdpRelayBindOk.encode (m : UdpRelayBindOk) (w : Writer) : Writer := w.u64 m.relayId

/-- `UdpRelayBindOk::decode`, the id alone. -/
def UdpRelayBindOk.decode : Decoder UdpRelayBindOk := do
  let relayId ← u64
  good
  return { relayId := relayId }

/-! ## Datagrams between peers

The two packets a path is proved with.  Both carry a tag, which is zero without
a key. -/

/-- `Probe`: the transaction of the pair it is for. -/
structure Probe where
  txn : Vector UInt8 16
  tag : Vector UInt8 16
  deriving DecidableEq

/-- `Probe::encode`, of fixed size. -/
def Probe.encode (m : Probe) (w : Writer) : Writer := (w.array m.txn).array m.tag

/-- `Probe::decode`: the flag is looked at behind the tag. -/
def Probe.decode : Decoder Probe := do
  let txn ← array 16
  let tag ← array 16
  good
  return { txn := txn, tag := tag }

/-- `ProbeOk`: the transaction again, and where the probe came from. -/
structure ProbeOk where
  txn : Vector UInt8 16
  mapped : Endpoint
  tag : Vector UInt8 16
  deriving DecidableEq

/-- `ProbeOk::encode`, of fixed size but for the family of the address. -/
def ProbeOk.encode (m : ProbeOk) (w : Writer) : Writer :=
  ((w.array m.txn).endpoint m.mapped).array m.tag

/-- `ProbeOk::decode`: the flag is looked at behind the tag. -/
def ProbeOk.decode : Decoder ProbeOk := do
  let txn ← array 16
  let mapped ← endpoint
  let tag ← array 16
  good
  return { txn := txn, mapped := mapped, tag := tag }

namespace Wire

/-- `r.bytes(r.remaining())`. -/
def Decoder.remaining : Decoder Bytes :=
  read (fun r => r.bytes r.remaining) fun _ h => ok_bytes h _

/-- `Transport::decode` with the cursor it leaves. -/
def Transport.decoder : Decoder Transport := do
  let connId ← u32
  let counter ← u64
  good
  let ciphertext ← Decoder.remaining
  return { connId := connId, counter := counter, ciphertext := ciphertext }

theorem Transport.decode_eq (r : Reader) :
    Transport.decode r = (Transport.decoder.run r).map Prod.fst := by
  unfold Transport.decode Transport.decoder
  simp only [run_bind]
  show _ = Option.map Prod.fst ((some r.u32).bind fun x => (some x.2.u64).bind _)
  simp only [Option.bind_some, good]
  cases r.u32.2.u64.2.ok <;> rfl

end Wire

end UConnect
