/-
  Server/Registry.lean --- the rendezvous server's state.

  Source: server/registry.hpp and server/registry.cpp.

  Records, topics and relay bindings, with the indexes the code keeps beside
  them.  `unordered_map` and `map` are `AList`; where the code walks an ordered
  map the model sorts by key first.  Randomness is an argument: a relay id and
  its tokens are drawn by the caller, and a lookup takes its sampler.

  `topics_.at(..)` throws when the topic is missing.  The model leaves the
  registry as it is there; `View.TopicInv.present` (RegistryIndex.lean) shows
  that the topic of every record exists, so the branch is never taken.
-/
import UConnect.Foundation.SwapList
import UConnect.Wire.Types
import UConnect.Crypto.Primitives
import Mathlib.Data.Fin.VecNotation

set_option autoImplicit false

namespace UConnect.Server

open UConnect UConnect.Foundation UConnect.Crypto

/-- A connection, as the runtime identifies it: a `uint64_t` that counts them
from 1.  It is a natural number here, which is the same thing while fewer than
2^64 connections are accepted. -/
abbrev ConnKey := Nat

/-- `RegistryConfig`, with its defaults: when a record counts as stale, how many
records and topics there may be, and the limits of the relays. -/
structure RegistryConfig where
  staleAfter : Duration := seconds 45
  maxPerIpPerTopic : Nat := 16
  maxPerIpTotal : Nat := 256
  maxEntries : Nat := 1000000
  maxTopics : Nat := 100000
  relayEnabled : Bool := true
  relayExpiry : Duration := seconds 90
  maxRelays : Nat := 4096
  maxRelaysPerIp : Nat := 8
  relayMaxBytes : Nat := 32 * 1024 * 1024

/-- The counters of `RegistryStats` that operations move. -/
structure RegistryStats where
  entriesFresh : Nat := 0
  registers : Nat := 0
  lookups : Nat := 0
  connects : Nat := 0
  expired : Nat := 0
  rejQuota : Nat := 0
  relaysAllocated : Nat := 0
  relayBytes : Nat := 0
  deriving DecidableEq

/-- `Registry::IpKey`: unlike `IpAddr::operator==` it compares every byte. -/
abbrev IpKey := Family × Vector UInt8 16

/-- `Registry::ip_key`: what the quotas count by, the address without its port. -/
def ipKey (ep : Endpoint) : IpKey := (ep.ip.family, ep.ip.bytes)

/-- `Registry::Entry`, a record.  `boundAddr` is the address the server saw at
registration, which also fixes the key the record is counted under. -/
structure Entry where
  devId : DevId
  topicId : TopicId
  boundAddr : Endpoint
  hostCands : List Candidate
  «meta» : Bytes
  owner : ConnKey
  lastSeen : Instant
  keyEpoch : Nat
  mode : TopicMode
  deriving DecidableEq

/-- `Registry::TopicState`.  `pos` gives the place of each member in `members`,
so that one can be taken out of the middle; `order` is the topic's key in the
listing. -/
structure TopicState where
  mode : TopicMode := .open
  listed : Bool := true
  members : List DevId := []
  pos : AList (fun _ : DevId => Nat) := ∅
  perIp : AList (fun _ : IpKey => Nat) := ∅
  order : Nat := 0
  fresh : Nat := 0
  deriving DecidableEq

/-- A relay has sides. -/
instance sidesNeZero : NeZero 2 := ⟨Nat.succ_ne_zero 1⟩

/-- `Registry::Relay`; the two sides are indexed by `Fin 2`. -/
structure Relay where
  id : RelayId
  kind : RelayKind
  topic : TopicId
  dev : Fin 2 → DevId
  owner : Fin 2 → ConnKey
  token : Fin 2 → RelayToken
  udp : Fin 2 → Option Endpoint
  countedIp : IpKey
  lastSeen : Instant
  bytes : Nat := 0
  exhausted : Bool := false

/-- The `Registry`.  Next to the records and the topics it keeps what would be
slow to search for: the devices of a connection, the counts of each address, the
listing in the order of creation, and the records that are fresh in the order
they will go stale. -/
structure Registry where
  cfg : RegistryConfig := {}
  secret : SymKey
  stats : RegistryStats := {}
  byDev : AList (fun _ : DevId => Entry) := ∅
  topics : AList (fun _ : TopicId => TopicState) := ∅
  perIpTotal : AList (fun _ : IpKey => Nat) := ∅
  byOwner : AList (fun _ : ConnKey => List DevId) := ∅
  listing : AList (fun _ : Nat => TopicId) := ∅
  nextOrder : Nat := 1
  freshOrder : AList (fun _ : Instant × DevId => TopicId) := ∅
  relays : AList (fun _ : RelayId => Relay) := ∅
  relaysPerIp : AList (fun _ : IpKey => Nat) := ∅

/-! ## Map helpers

The few operations on maps the source writes out in place. -/

/-- `m[k]++` on a map of counts. -/
def increment {κ : Type} [DecidableEq κ] (m : AList fun _ : κ => Nat) (k : κ) :
    AList fun _ : κ => Nat :=
  m.insert k ((m.lookup k).getD 0 + 1)

/-- `decrement`: one less, and no entry at zero. -/
def decrement {κ : Type} [DecidableEq κ] (m : AList fun _ : κ => Nat) (k : κ) :
    AList fun _ : κ => Nat :=
  match m.lookup k with
  | none => m
  | some n => if n ≤ 1 then m.erase k else m.insert k (n - 1)

/-- Change the value under a key, if there is one. -/
def modifyAt {κ ν : Type} [DecidableEq κ] (m : AList fun _ : κ => ν) (k : κ) (f : ν → ν) :
    AList fun _ : κ => ν :=
  match m.lookup k with
  | none => m
  | some v => m.insert k (f v)

/-- The swap-and-pop of `erase_entry`. -/
def TopicState.removeMember (t : TopicState) (dev : DevId) : TopicState :=
  match t.pos.lookup dev with
  | none => t
  | some idx =>
      let (members, pos) := swapPop t.members t.pos dev idx
      { t with members := members, pos := pos }

namespace Registry

variable (P : Primitives)

/-! ## Device ids

A device's id is not chosen by the device: it is a MAC over the topic and the
address under the server's secret, so that registering again from the same
address names the same record. -/

/-- `append_endpoint`: a byte for the family, the address's own bytes and the
port.  The bytes an IPv4 address does not use are left out, unlike in `ipKey`. -/
def appendEndpoint (ep : Endpoint) : Bytes :=
  (match ep.ip.family with | .v4 => 4 | .v6 => 6) ::
    (ep.ip.bytes.toList.take ep.ip.addrLen ++ beBytes 2 ep.port)

/-- `derive_dev_id`: a MAC over the topic and the observed address. -/
def deriveDevId (secret : SymKey) (topic : TopicId) (ep : Endpoint) : DevId :=
  copyInto 16 (P.mac secret.toList
    (ascii "uconnect:v2:devid" ++ topic.toList ++ appendEndpoint ep)).toList

/-! ## Freshness counters

Three things count the fresh records: their order of going stale, a counter in
each topic and one in the statistics.  Both counters are machine integers, and
they are taken down only for a record that was in the order. -/

/-- `forget_fresh`: if the record is in the order it leaves it and both
counters, else nothing. -/
def forgetFresh (r : Registry) (e : Entry) : Registry :=
  if (e.lastSeen, e.devId) ∈ r.freshOrder then
    { r with
      freshOrder := r.freshOrder.erase (e.lastSeen, e.devId)
      topics := modifyAt r.topics e.topicId fun t => { t with fresh := decr 32 t.fresh }
      stats := { r.stats with entriesFresh := decr 64 r.stats.entriesFresh } }
  else r

/-- `mark_fresh`, for the record of `dev`; `emplace` keeps an entry already
there. -/
def markFresh (r : Registry) (dev : DevId) (now : Instant) : Registry :=
  match r.byDev.lookup dev with
  | none => r
  | some e =>
      let r := r.forgetFresh e
      let key := (now, e.devId)
      { r with
        byDev := r.byDev.insert dev { e with lastSeen := now }
        freshOrder := if key ∈ r.freshOrder then r.freshOrder
          else r.freshOrder.insert key e.topicId
        topics := modifyAt r.topics e.topicId fun t => { t with fresh := incr 32 t.fresh }
        stats := { r.stats with entriesFresh := incr 64 r.stats.entriesFresh } }

/-- The order of `fresh_order_`: by instant, then by device id. -/
def freshLe (a b : Σ _ : Instant × DevId, TopicId) : Bool :=
  a.1.1 < b.1.1 || (a.1.1 == b.1.1 && a.1.2.toList ≤ b.1.2.toList)

/-- One round of the loop in `expire_fresh`. -/
def expireOne (r : Registry) (e : Σ _ : Instant × DevId, TopicId) : Registry :=
  { r with
    topics := modifyAt r.topics e.2 fun t => { t with fresh := decr 32 t.fresh }
    stats := { r.stats with entriesFresh := decr 64 r.stats.entriesFresh }
    freshOrder := r.freshOrder.erase e.1 }

/-- `expire_fresh`: from the oldest entry on, as long as it is stale. -/
def expireFresh (r : Registry) (now : Instant) : Registry :=
  ((r.freshOrder.entries.mergeSort freshLe).takeWhile fun e =>
    ¬ (now - e.1.1 < r.cfg.staleAfter)).foldl expireOne r

/-! ## Records

A record belongs to the connection that registered it.  Only that one may change
it, but a new connection from the same address takes it over. -/

/-- `RegisterResult`; the device and the address are filled in for a refusal
too. -/
structure RegisterResult where
  code : ErrorCode := .none
  devId : DevId
  srflx : Endpoint
  peersInTopic : Nat := 0

/-- The list of device ids a connection owns; `by_owner_[owner]`. -/
def owned (r : Registry) (owner : ConnKey) : List DevId :=
  (r.byOwner.lookup owner).getD []

/-- The takeover in `register_entry`: the record passes to a new connection. -/
def takeOver (r : Registry) (dev : DevId) (e : Entry) (owner : ConnKey) : Registry :=
  let byOwner := r.byOwner.insert e.owner ((r.owned e.owner).filter (· ≠ dev))
  { r with
    byOwner := byOwner.insert owner ((byOwner.lookup owner).getD [] ++ [dev])
    byDev := r.byDev.insert dev { e with owner := owner } }

/-- The quota checks of `register_entry` for a record that does not exist. -/
def overQuota (r : Registry) (topic : TopicId) (ik : IpKey) : Bool :=
  r.byDev.entries.length ≥ r.cfg.maxEntries ||
  (r.perIpTotal.lookup ik).any (· ≥ r.cfg.maxPerIpTotal) ||
  (match r.topics.lookup topic with
    | some t => (t.perIp.lookup ik).any (· ≥ r.cfg.maxPerIpPerTopic)
    | none => r.topics.entries.length ≥ r.cfg.maxTopics)

/-- `topics_[msg.id]` and, when it is new, its place in the listing. -/
def openTopic (r : Registry) (msg : Register) : Registry × TopicState :=
  let t := (r.topics.lookup msg.id).getD {}
  if t.members.isEmpty then
    ({ r with
        nextOrder := incr 32 r.nextOrder
        listing := r.listing.insert r.nextOrder msg.id },
      { t with mode := msg.mode, order := r.nextOrder })
  else (r, t)

/-- The new-record half of `register_entry`, past the quotas. -/
def addRecord (r : Registry) (msg : Register) (dev : DevId) (src : Endpoint)
    (owner : ConnKey) : Registry :=
  let ik := ipKey src
  let (r, t) := r.openTopic msg
  let t := { t with
    pos := t.pos.insert dev t.members.length
    members := t.members ++ [dev]
    perIp := increment t.perIp ik }
  { r with
    topics := r.topics.insert msg.id t
    perIpTotal := increment r.perIpTotal ik
    byOwner := r.byOwner.insert owner (r.owned owner ++ [dev]) }

/-- The tail of `register_entry`, for new and existing records alike: write the
record, mark it fresh, hide the topic if asked. -/
def writeRecord (r : Registry) (msg : Register) (dev : DevId) (src : Endpoint)
    (owner : ConnKey) (now : Instant) : Registry :=
  let old := r.byDev.lookup dev
  let e : Entry :=
    { devId := dev, topicId := msg.id, boundAddr := src, hostCands := msg.hostCands,
      «meta» := msg.meta, owner := owner, lastSeen := (old.map (·.lastSeen)).getD 0,
      keyEpoch := msg.keyEpoch, mode := msg.mode }
  let r := { r with byDev := r.byDev.insert dev e }
  let r := r.markFresh dev now
  if msg.unlisted then
    { r with
      listing := match r.topics.lookup msg.id with
        | some t => r.listing.erase t.order
        | none => r.listing
      topics := modifyAt r.topics msg.id fun t => { t with listed := false } }
  else r

/-- `register_entry`.  The takeover comes first and is not undone by anything
that follows; the quotas are looked at only for a record that does not exist,
and are then in order: all records, the records of the address, those under the
topic, or the number of topics. -/
def registerEntry (r : Registry) (msg : Register) (src : Endpoint) (owner : ConnKey)
    (now : Instant) : RegisterResult × Registry :=
  let dev := deriveDevId P r.secret msg.id src
  let existing := r.byDev.lookup dev
  let r := match existing with
    | some e => if e.owner ≠ owner then r.takeOver dev e owner else r
    | none => r
  if existing.isNone && r.overQuota msg.id (ipKey src) then
    ({ code := .quotaExceeded, devId := dev, srflx := src },
      { r with stats := { r.stats with rejQuota := r.stats.rejQuota + 1 } })
  else
    let r := if existing.isNone then r.addRecord msg dev src owner else r
    let r := r.writeRecord msg dev src owner now
    let members := ((r.topics.lookup msg.id).map (·.members.length)).getD 0
    ({ devId := dev, srflx := src, peersInTopic := min members 0xFFFF },
      { r with stats := { r.stats with registers := r.stats.registers + 1 } })

/-- `refresh`: the record is as new as `now`, for its owner. -/
def refresh (r : Registry) (dev : DevId) (owner : ConnKey) (now : Instant) :
    ErrorCode × Registry :=
  match r.byDev.lookup dev with
  | none => (.notFound, r)
  | some e => if e.owner ≠ owner then (.badAuth, r) else (.none, r.markFresh dev now)

/-- `update`: other candidates and other metadata, and the record is as new as
`now`. -/
def update (r : Registry) (msg : Update) (owner : ConnKey) (now : Instant) :
    ErrorCode × Registry :=
  match r.byDev.lookup msg.devId with
  | none => (.notFound, r)
  | some e =>
      if e.owner ≠ owner then (.badAuth, r)
      else
        let e := { e with hostCands := msg.hostCands, «meta» := msg.meta }
        (.none, { r with byDev := r.byDev.insert msg.devId e }.markFresh msg.devId now)

/-- The topic half of `erase_entry`; the topic itself goes with its last member. -/
def leaveTopic (r : Registry) (dev : DevId) (e : Entry) : Registry :=
  match r.topics.lookup e.topicId with
  | none => r
  | some t =>
      let t := t.removeMember dev
      let t := { t with perIp := decrement t.perIp (ipKey e.boundAddr) }
      if t.members.isEmpty then
        { r with listing := r.listing.erase t.order, topics := r.topics.erase e.topicId }
      else { r with topics := r.topics.insert e.topicId t }

/-- `erase_entry`: the record leaves the order, its topic, the count of its
address and the map.  The list of its owner is left to the callers, two of which
are about to drop it. -/
def eraseEntry (r : Registry) (dev : DevId) : Registry :=
  match r.byDev.lookup dev with
  | none => r
  | some e =>
      let r := (r.forgetFresh e).leaveTopic dev e
      { r with
        perIpTotal := decrement r.perIpTotal (ipKey e.boundAddr)
        byDev := r.byDev.erase dev }

/-- `unregister`: the record goes, and the owner's list with its last device. -/
def unregister (r : Registry) (dev : DevId) (owner : ConnKey) : ErrorCode × Registry :=
  match r.byDev.lookup dev with
  | none => (.notFound, r)
  | some e =>
      if e.owner ≠ owner then (.badAuth, r)
      else
        let list := (r.owned owner).filter (· ≠ dev)
        let byOwner := if list.isEmpty then r.byOwner.erase owner
          else r.byOwner.insert owner list
        (.none, { r with byOwner := byOwner }.eraseEntry dev)

/-- `release_relay`, of one entry of the map: the count it was made under goes
down by one. -/
def releaseRelay (r : Registry) (it : Σ _ : RelayId, Relay) : Registry :=
  { r with
    relaysPerIp := decrement r.relaysPerIp it.2.countedIp
    relays := r.relays.erase it.1 }

/-- Release every binding that `dead` selects; the loops of `drop_owner` and
`sweep`. -/
def releaseWhere (r : Registry) (dead : Relay → Bool) : Registry :=
  (r.relays.entries.filter fun it => dead it.2).foldl releaseRelay r

/-- `drop_owner`: everything of a connection that has ended.  Its records go,
and so does every relay with a side it owns, since such a relay can carry
nothing more. -/
def dropOwner (r : Registry) (owner : ConnKey) : Nat × Registry :=
  let devs := r.owned owner
  let r := devs.foldl eraseEntry r
  let r := { r with byOwner := r.byOwner.erase owner }
  let r := r.releaseWhere fun b => b.owner 0 = owner || b.owner 1 = owner
  (devs.length, { r with stats := { r.stats with expired := r.stats.expired + devs.length } })

/-! ## Queries

What can be asked of the registry.  Three of them still change it: a lookup and
a connect are counted, and a listing first takes the stale records out of the
counters. -/

/-- `is_fresh`: younger than `stale_after`, and exactly as old no longer. -/
def isFresh (r : Registry) (e : Entry) (now : Instant) : Bool :=
  now - e.lastSeen < r.cfg.staleAfter

/-- `to_entry`; ages are cut to whole seconds.  The observed address comes
first, and the candidates of the node fill up what is left of the list. -/
def toEntry (r : Registry) (e : Entry) (wantMeta : Bool) (now : Instant) : PeerEntry where
  devId := e.devId
  ageSecs := min ((now - e.lastSeen).toNat / 1000000000) 0xFFFF
  stale := !r.isFresh e now
  cands := ({ kind := .srflx, ep := e.boundAddr } :: e.hostCands).take kMaxCandidates
  «meta» := if wantMeta then e.meta else []

/-- What the random engine returns during one lookup: a shuffle of the index
list, and the draws of the rejection loop. -/
structure Sampler where
  shuffle : List Nat → List Nat
  draws : List Nat

/-- The rejection loop of `lookup`; `none` while the draws do not suffice. -/
def rejectionLoop (want : Nat) : List Nat → List Nat → Option (List Nat)
  | picked, [] => if picked.length < want then none else some picked
  | picked, i :: draws =>
      if picked.length < want then
        rejectionLoop want (if i ∈ picked then picked else picked ++ [i]) draws
      else some picked

/-- The indexes `lookup` samples. -/
def pick (s : Sampler) (n want : Nat) : Option (List Nat) :=
  if want = n then some (List.range n)
  else if n < want * 4 then some ((s.shuffle (List.range n)).take want)
  else rejectionLoop want [] s.draws

/-- `LookupResult`: of a topic nobody has, the empty one. -/
structure LookupResult where
  entries : List PeerEntry := []
  total : Nat := 0
  mode : TopicMode := .open

/-- `lookup`; `none` is a rejection loop that has not ended.  Whatever the
draws, the fresh records of the sample stand before the stale ones. -/
def lookup (r : Registry) (topic : TopicId) (max : Nat) (wantMeta : Bool) (now : Instant)
    (s : Sampler) : Option LookupResult × Registry :=
  let r := { r with stats := { r.stats with lookups := r.stats.lookups + 1 } }
  match r.topics.lookup topic with
  | none => (some {}, r)
  | some t =>
      let max := if max = 0 then kLookupDefault else max
      let max := if max > kLookupMax then kLookupMax else max
      let n := t.members.length
      let found := (pick s n (min max n)).map fun picked =>
        let records := picked.filterMap fun i => t.members[i]?.bind r.byDev.lookup
        let ordered := records.filter (r.isFresh · now) ++ records.filter (!r.isFresh · now)
        { entries := ordered.map (r.toEntry · wantMeta now)
          total := min n 0xFFFF
          mode := t.mode : LookupResult }
      (found, r)

/-- `resolve`: one record, with its metadata. -/
def resolve (r : Registry) (dev : DevId) (now : Instant) : Option (TopicId × PeerEntry) :=
  (r.byDev.lookup dev).map fun e => (e.topicId, r.toEntry e true now)

/-- The loop of `list_topics`: the summaries, and where it stopped. -/
def listFrom (r : Registry) : Nat → List (Σ _ : Nat, TopicId) → List TopicSummary × Nat
  | _, [] => ([], 0)
  | 0, e :: _ => ([], e.1)
  | limit + 1, e :: rest =>
      match r.topics.lookup e.2 with
      | none => listFrom r (limit + 1) rest
      | some t =>
          if t.listed then
            let (out, next) := listFrom r limit rest
            (⟨e.2, t.mode, t.members.length % 2 ^ 32, t.fresh⟩ :: out, next)
          else listFrom r (limit + 1) rest

/-- `list_topics`: the summaries and the next cursor. -/
def listTopics (r : Registry) (cursor limit : Nat) (now : Instant) :
    (List TopicSummary × Nat) × Registry :=
  let r := r.expireFresh now
  let limit := if limit = 0 then 100 else limit
  let from_ := (r.listing.entries.mergeSort fun a b => a.1 ≤ b.1).dropWhile fun e =>
    e.1 < cursor
  (r.listFrom limit from_, r)

/-- `connect_target`: whose connection an introduction goes to.  The sender must
own the record it speaks for, and both records must be under one topic. -/
def connectTarget (r : Registry) (src dst : DevId) (owner : ConnKey) :
    Option ConnKey × Registry :=
  match r.byDev.lookup src, r.byDev.lookup dst with
  | some f, some t =>
      if f.owner ≠ owner then (none, r)
      else if f.topicId ≠ t.topicId then (none, r)
      else (some t.owner, { r with stats := { r.stats with connects := r.stats.connects + 1 } })
  | _, _ => (none, r)

/-! ## Relays

A binding has two sides, each with the device, the owner at the time and a
token.  It is counted under the address of whoever allocated it until it is
released. -/

/-- `RelayGrant`: the token of the caller's side, and what the offer to the
other peer needs. -/
structure RelayGrant where
  code : ErrorCode := .none
  id : RelayId := 0
  token : RelayToken := Vector.replicate 16 0
  peerToken : RelayToken := Vector.replicate 16 0
  peerOwner : ConnKey := 0
  topic : TopicId := Vector.replicate 16 0
  maxKib : Nat

/-- Which side of `b` the pair `(src, peer)` is, if it is the binding's pair;
the second test of the source overrides the first. -/
def pairSide (b : Relay) (src peer : DevId) : Option (Fin 2) :=
  if b.dev 1 = src ∧ b.dev 0 = peer then some 1
  else if b.dev 0 = src ∧ b.dev 1 = peer then some 0
  else none

/-- The binding `relay_alloc` finds for a pair and kind, with the caller's side. -/
def findBinding (r : Registry) (src peer : DevId) (kind : RelayKind) :
    Option ((Σ _ : RelayId, Relay) × Fin 2) :=
  r.relays.entries.findSome? fun it =>
    if it.2.kind ≠ kind then none
    else (pairSide it.2 src peer).map fun side => (it, side)

/-- The random values one `relay_alloc` draws: ids until one is free, and the
two tokens. -/
structure RelayDraws where
  ids : List RelayId
  token : Fin 2 → RelayToken

/-- `relay_alloc`; `none` is an id loop that has not ended.  A binding of the
pair that is there already is handed back before the quotas are looked at, and
with the owners it was made with; one whose budget is spent is refused. -/
def relayAlloc (r : Registry) (src peer : DevId) (kind : RelayKind) (owner : ConnKey)
    (addr : Endpoint) (now : Instant) (draws : RelayDraws) :
    Option (RelayGrant × Registry) :=
  let maxKib := r.cfg.relayMaxBytes / 1024 % 2 ^ 32
  let refuse (code : ErrorCode) (r : Registry) : Option (RelayGrant × Registry) :=
    some ({ code := code, maxKib := maxKib }, r)
  let rejected := { r with stats := { r.stats with rejQuota := r.stats.rejQuota + 1 } }
  if !r.cfg.relayEnabled then refuse .unsupported r
  else
    match r.byDev.lookup src, r.byDev.lookup peer with
    | some f, some p =>
        if f.owner ≠ owner then refuse .badAuth r
        else if f.topicId ≠ p.topicId then refuse .badRequest r
        else
          match r.findBinding src peer kind with
          | some (⟨id, b⟩, side) =>
              if b.exhausted then refuse .quotaExceeded rejected
              else
                some ({ id := id, token := b.token side, peerToken := b.token (1 - side),
                        peerOwner := b.owner (1 - side), topic := b.topic, maxKib := maxKib },
                  { r with relays := r.relays.insert id { b with lastSeen := now } })
          | none =>
              let ik := ipKey addr
              if r.relays.entries.length ≥ r.cfg.maxRelays ||
                  (r.relaysPerIp.lookup ik).any (· ≥ r.cfg.maxRelaysPerIp) then
                refuse .quotaExceeded rejected
              else
                (draws.ids.find? fun id => id ≠ 0 ∧ id ∉ r.relays).map fun id =>
                  let b : Relay :=
                    { id := id, kind := kind, topic := f.topicId, dev := ![src, peer],
                      owner := ![owner, p.owner], token := draws.token,
                      udp := fun _ => none, countedIp := ik, lastSeen := now }
                  ({ id := id, token := draws.token 0, peerToken := draws.token 1,
                     peerOwner := p.owner, topic := f.topicId, maxKib := maxKib },
                    { r with
                      relays := r.relays.insert id b
                      relaysPerIp := increment r.relaysPerIp ik
                      stats := { r.stats with
                        relaysAllocated := r.stats.relaysAllocated + 1 } })
    | _, _ => refuse .notFound r

/-- `relay_side`: which side a token is of, the first if both sides had the
same. -/
def relaySide (r : Registry) (id : RelayId) (token : RelayToken)
    (kind : Option RelayKind := none) : Option (Fin 2) :=
  match r.relays.lookup id with
  | none => none
  | some b =>
      if kind.any (· ≠ b.kind) then none
      else if b.token 0 = token then some 0
      else if b.token 1 = token then some 1
      else none

/-- `relay_charge`: the bytes are taken from the budget or, if they are more
than what is left of it, none are and the binding is spent.  The sum is a
`uint64_t`. -/
def relayCharge (r : Registry) (id : RelayId) (bytes : Nat) (now : Instant) :
    Bool × Registry :=
  match r.relays.lookup id with
  | none => (false, r)
  | some b =>
      if b.exhausted || (b.bytes + bytes) % 2 ^ 64 > r.cfg.relayMaxBytes then
        (false, { r with
          relays := r.relays.insert id { b with exhausted := true }
          stats := { r.stats with rejQuota := r.stats.rejQuota + 1 } })
      else
        (true, { r with
          relays := r.relays.insert id
            { b with bytes := (b.bytes + bytes) % 2 ^ 64, lastSeen := now }
          stats := { r.stats with relayBytes := r.stats.relayBytes + bytes } })

/-- `udp_bind`: from now on datagrams of the other side go to `src`. -/
def udpBind (r : Registry) (id : RelayId) (token : RelayToken) (src : Endpoint)
    (now : Instant) : Bool × Registry :=
  match r.relays.lookup id with
  | none => (false, r)
  | some b =>
      if b.kind ≠ .udp then (false, r)
      else
        match r.relaySide id token with
        | none => (false, r)
        | some side =>
            (true, { r with
              relays := r.relays.insert id
                { b with udp := Function.update b.udp side (some src), lastSeen := now } })

/-- `udp_forward`: where a datagram goes, if its sender has bound a side, the
other side has bound too and the budget allows it. -/
def udpForward (r : Registry) (id : RelayId) (src : Endpoint) (bytes : Nat)
    (now : Instant) : Option Endpoint × Registry :=
  match r.relays.lookup id with
  | none => (none, r)
  | some b =>
      if b.kind ≠ .udp then (none, r)
      else
        let side : Option (Fin 2) :=
          if (b.udp 0).any (·.same src) then some 0
          else if (b.udp 1).any (·.same src) then some 1
          else none
        match side with
        | none => (none, r)
        | some side =>
            match b.udp (1 - side) with
            | none => (none, r)
            | some dst =>
                let (ok, r) := r.relayCharge id bytes now
                (if ok then some dst else none, r)

/-- `relay_close`: the binding goes, if it is there. -/
def relayClose (r : Registry) (id : RelayId) : Registry :=
  match r.relays.lookup id with
  | none => r
  | some b => r.releaseRelay ⟨id, b⟩

/-- `sweep`: the records that have gone stale leave the counters, and bindings
nothing has used for `relay_expiry` go.  Records themselves go only with their
connection. -/
def sweep (r : Registry) (now : Instant) : Registry :=
  (r.expireFresh now).releaseWhere fun b => now - b.lastSeen ≥ r.cfg.relayExpiry

/-! ## Runs

Every public call as a step, with the randomness it would draw.  The invariants
are proved over lists of these. -/

/-- One call of the registry's interface, with the caller's random draws. -/
inductive Op where
  | register (msg : Register) (src : Endpoint) (owner : ConnKey) (now : Instant)
  | refresh (dev : DevId) (owner : ConnKey) (now : Instant)
  | update (msg : Update) (owner : ConnKey) (now : Instant)
  | unregister (dev : DevId) (owner : ConnKey)
  | dropOwner (owner : ConnKey)
  | lookup (topic : TopicId) (max : Nat) (wantMeta : Bool) (now : Instant) (s : Sampler)
  | resolve (dev : DevId) (now : Instant)
  | listTopics (cursor limit : Nat) (now : Instant)
  | connectTarget (src dst : DevId) (owner : ConnKey)
  | relayAlloc (src peer : DevId) (kind : RelayKind) (owner : ConnKey) (addr : Endpoint)
      (now : Instant) (draws : RelayDraws)
  | relayCharge (id : RelayId) (bytes : Nat) (now : Instant)
  | udpBind (id : RelayId) (token : RelayToken) (src : Endpoint) (now : Instant)
  | udpForward (id : RelayId) (src : Endpoint) (bytes : Nat) (now : Instant)
  | relayClose (id : RelayId)
  | sweep (now : Instant)
  | stats (now : Instant)

/-- The registry after a call; a random loop that has not ended changes nothing. -/
def step (r : Registry) : Op → Registry
  | .register msg src owner now => (r.registerEntry P msg src owner now).2
  | .refresh dev owner now => (r.refresh dev owner now).2
  | .update msg owner now => (r.update msg owner now).2
  | .unregister dev owner => (r.unregister dev owner).2
  | .dropOwner owner => (r.dropOwner owner).2
  | .lookup topic max wantMeta now s => (r.lookup topic max wantMeta now s).2
  | .resolve _ _ => r
  | .listTopics cursor limit now => (r.listTopics cursor limit now).2
  | .connectTarget src dst owner => (r.connectTarget src dst owner).2
  | .relayAlloc src peer kind owner addr now draws =>
      ((r.relayAlloc src peer kind owner addr now draws).map (·.2)).getD r
  | .relayCharge id bytes now => (r.relayCharge id bytes now).2
  | .udpBind id token src now => (r.udpBind id token src now).2
  | .udpForward id src bytes now => (r.udpForward id src bytes now).2
  | .relayClose id => r.relayClose id
  | .sweep now => r.sweep now
  | .stats now => r.expireFresh now

/-- The topic and address an operation registers, if it registers one. -/
def Op.registers : Op → Option (TopicId × Endpoint)
  | .register msg src _ _ => some (msg.id, src)
  | _ => none

end Registry

end UConnect.Server
