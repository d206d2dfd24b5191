/-
  Server/ControlService.lean --- control messages and datagrams at the server.

  Source: server/control_service.hpp and server/control_service.cpp, with
  `Registry::stats` of server/registry.cpp.

  A message comes from a connection, acts on the registry and yields frames for
  connections.  Two things the code decides are inputs here.  Whether a request
  is within its token bucket is a computation in doubles; every call takes the
  verdict.  The random choices of `lookup` and `relay_alloc` are drawn from a
  list; `none` is a loop that has not ended on the draws it was given.

  An address the server observes comes from the socket layer, which fills an
  endpoint in normal form; `Address` carries that.
-/
import UConnect.Foundation.Run
import UConnect.Server.Registry
import UConnect.Wire.Control

set_option autoImplicit false

namespace UConnect.Server

open UConnect UConnect.Foundation UConnect.Crypto UConnect.Wire

/-- An endpoint as the socket layer reports it. -/
abbrev Address := { ep : Endpoint // ep.normal = ep }

/-- `Framed`: bytes ready to write to a connection. -/
structure Framed where
  dst : ConnKey
  bytes : Bytes
  deriving DecidableEq

/-- `UdpOut`: a datagram and where it goes. -/
structure UdpOut where
  dst : Endpoint
  data : Bytes
  deriving DecidableEq

/-! ## Replies

Every reply is framed here, so that the runtime only copies bytes. -/

/-- What is sent in place of a reply that does not fit. -/
def tooLong (txn : Nat) : Bytes :=
  message .error txn
    (Error.encode
      { code := ErrorCode.badRequest.code, reason := ascii "reply exceeds frame limit" })

/-- `reply`.  A message that does not fit a frame would be sent as nothing; an
error goes out in its place. -/
def reply (dst : ConnKey) (type : MsgType) (txn : Nat) (body : Writer → Writer)
    (flags : UInt8 := 0) : Framed :=
  let m := message type txn body flags
  { dst := dst, bytes := frame (if m.isEmpty then tooLong txn else m) }

/-- `reply_empty`: a reply that only says yes. -/
def replyEmpty (dst : ConnKey) (type : MsgType) (txn : Nat) : Framed :=
  { dst := dst, bytes := frame (emptyMessage type txn) }

/-- `error`: the code with its own text for a reason. -/
def error (dst : ConnKey) (txn : Nat) (code : ErrorCode) : Framed :=
  reply dst .error txn (Error.encode { code := code.code, reason := ascii code.text })

/-! ## State

The connections the service was told of, the registry, and when each datagram
source was last heard. -/

/-- `ControlService::Conn`, without its bucket. -/
structure Conn where
  peer : Address

/-- The `ControlService` and the registry it acts on; of a UDP bucket only the
time it was last used. -/
structure ControlService where
  registry : Registry
  maxUdpSources : Nat := 16384
  conns : AList (fun _ : ConnKey => Conn) := ∅
  udpBuckets : AList (fun _ : Vector UInt8 16 => Instant) := ∅
  rejRateLimited : Nat := 0

/-- `Result`: frames for any connections, and whether the one that asked is to
be closed. -/
structure Result where
  out : List Framed := []
  close : Bool := false

/-- The random values of one message. -/
structure Draws where
  sampler : Registry.Sampler
  relay : Registry.RelayDraws

namespace ControlService

variable (P : Primitives)

/-- A service that has just been made, over an empty registry. -/
def create (cfg : RegistryConfig) (secret : SymKey) (maxUdpSources : Nat := 16384) :
    ControlService :=
  { registry := { cfg := cfg, secret := secret }, maxUdpSources := maxUdpSources }

/-- `on_open`: from now on the connection may ask. -/
def onOpen (s : ControlService) (key : ConnKey) (peer : Address) : ControlService :=
  { s with conns := s.conns.insert key { peer := peer } }

/-- `on_close`: everything the connection registered or allocated goes with it. -/
def onClose (s : ControlService) (key : ConnKey) : ControlService :=
  { s with conns := s.conns.erase key, registry := (s.registry.dropOwner key).2 }

/-! ## One handler for each message

The cases of `on_message`, each a function.  A body that does not decode is
answered with an error and the connection goes on; a header that does not decode
ends it. -/

/-- A reply from the registry as it is now. -/
def answer (s : ControlService) (registry : Registry) (out : List Framed) :
    Option (Result × ControlService) :=
  some ({ out := out }, { s with registry := registry })

/-- A known type that failed to decode. -/
def malformed (s : ControlService) (key : ConnKey) (txn : Nat) : Option (Result × ControlService) :=
  s.answer s.registry [error key txn .badRequest]

/-- `case MsgType::Register`: under the address the server sees, not one the
message names. -/
def onRegister (s : ControlService) (key : ConnKey) (conn : Conn) (h : Header) (r : Reader)
    (now : Instant) : Option (Result × ControlService) :=
  match (Register.decode h).run r with
  | none => s.malformed key h.txnId
  | some (m, _) =>
      let (res, reg) := s.registry.registerEntry P m conn.peer key now
      if res.code ≠ .none then s.answer reg [error key h.txnId res.code]
      else s.answer reg [reply key .registerOk h.txnId
        (RegisterOk.encode
          { devId := res.devId, srflx := res.srflx, peersInTopic := res.peersInTopic })]

/-- `case MsgType::Keepalive`.  Without a body it is about the connection alone. -/
def onKeepalive (s : ControlService) (key : ConnKey) (conn : Conn) (h : Header) (r : Reader)
    (now : Instant) : Option (Result × ControlService) :=
  let ok := reply key .keepaliveOk h.txnId (KeepaliveOk.encode { srflx := conn.peer })
  if r.remaining = 0 then s.answer s.registry [ok]
  else
    match DevRef.decode.run r with
    | none => s.malformed key h.txnId
    | some (m, _) =>
        let (code, reg) := s.registry.refresh m.devId key now
        if code ≠ .none then s.answer reg [error key h.txnId code] else s.answer reg [ok]

/-- `case MsgType::Update`, answered by its type alone. -/
def onUpdate (s : ControlService) (key : ConnKey) (h : Header) (r : Reader) (now : Instant) :
    Option (Result × ControlService) :=
  match Update.decode.run r with
  | none => s.malformed key h.txnId
  | some (m, _) =>
      let (code, reg) := s.registry.update m key now
      if code ≠ .none then s.answer reg [error key h.txnId code]
      else s.answer reg [replyEmpty key .updateOk h.txnId]

/-- `case MsgType::Unregister`, answered by its type alone. -/
def onUnregister (s : ControlService) (key : ConnKey) (h : Header) (r : Reader) :
    Option (Result × ControlService) :=
  match DevRef.decode.run r with
  | none => s.malformed key h.txnId
  | some (m, _) =>
      let (code, reg) := s.registry.unregister m.devId key
      if code ≠ .none then s.answer reg [error key h.txnId code]
      else s.answer reg [replyEmpty key .unregisterOk h.txnId]

/-- The loop that trims a sample: how many entries fit behind `bytes`. -/
def fitting (bytes : Nat) : List PeerEntry → Nat
  | [] => 0
  | e :: es =>
      if bytes + e.encodedSize > kMaxFrame then 0 else 1 + fitting (bytes + e.encodedSize) es

/-- `case MsgType::Lookup`: as many of the sample as a frame takes. -/
def onLookup (s : ControlService) (key : ConnKey) (h : Header) (r : Reader) (now : Instant)
    (draws : Draws) : Option (Result × ControlService) :=
  match (Lookup.decode h).run r with
  | none => s.malformed key h.txnId
  | some (m, _) =>
      let (res, reg) := s.registry.lookup m.id m.max m.wantMeta now draws.sampler
      res.bind fun res =>
        let bytes := Header.kSize + 16 + 1 + 2 + 1
        let count := fitting bytes res.entries
        s.answer reg [reply key .lookupOk h.txnId
          (LookupOk.encode { id := m.id, mode := res.mode, total := res.total
                             entries := res.entries.take count })]

/-- `case MsgType::Resolve`.  A device nobody has registered is no error. -/
def onResolve (s : ControlService) (key : ConnKey) (h : Header) (r : Reader) (now : Instant) :
    Option (Result × ControlService) :=
  match Resolve.decode.run r with
  | none => s.malformed key h.txnId
  | some (m, _) =>
      let ok : ResolveOk := match s.registry.resolve m.devId now with
        | some (topic, entry) => { found := true, topic := topic, entry := entry }
        | none => {}
      s.answer s.registry [reply key .resolveOk h.txnId ok.encode]

/-- `case MsgType::Topics`, one page. -/
def onTopics (s : ControlService) (key : ConnKey) (h : Header) (r : Reader) (now : Instant) :
    Option (Result × ControlService) :=
  match Topics.decode.run r with
  | none => s.malformed key h.txnId
  | some (m, _) =>
      let ((topics, next), reg) := s.registry.listTopics m.cursor m.limit now
      s.answer reg [reply key .topicsOk h.txnId
        (TopicsOk.encode { nextCursor := next, topics := topics })]

/-- `case MsgType::Stats`, with `Registry::stats`. -/
def onStats (s : ControlService) (key : ConnKey) (h : Header) (now : Instant) :
    Option (Result × ControlService) :=
  let reg := s.registry.expireFresh now
  let ok : StatsOk :=
    { topicsTotal := reg.topics.entries.length
      topicsListed := reg.listing.entries.length
      entriesTotal := reg.byDev.entries.length
      entriesFresh := reg.stats.entriesFresh
      registers := reg.stats.registers
      lookups := reg.stats.lookups
      connects := reg.stats.connects
      expired := reg.stats.expired
      rejQuota := reg.stats.rejQuota
      rejRateLimited := s.rejRateLimited
      relaysOpen := reg.relays.entries.length
      relaysAllocated := reg.stats.relaysAllocated
      relayBytes := reg.stats.relayBytes
      connections := s.conns.entries.length }
  s.answer reg [reply key .statsOk h.txnId ok.encode]

/-- `case MsgType::Connect`.  There is no reply when it is passed on: the frame
goes to the other connection, which asked for nothing and sees transaction 0. -/
def onConnect (s : ControlService) (key : ConnKey) (h : Header) (r : Reader) :
    Option (Result × ControlService) :=
  match Connect.decode.run r with
  | none => s.malformed key h.txnId
  | some (m, _) =>
      let (target, reg) := s.registry.connectTarget m.fromDev m.toDev key
      match target with
      | none => s.answer reg [error key h.txnId .notFound]
      | some target => s.answer reg [reply target .relayed 0
          (Relayed.encode { fromDev := m.fromDev, payload := m.payload })]

/-- `case MsgType::RelayAlloc`: the caller gets its side of the binding, and the
owner of the other record an offer with the other side. -/
def onRelayAlloc (s : ControlService) (key : ConnKey) (conn : Conn) (h : Header) (r : Reader)
    (now : Instant) (draws : Draws) : Option (Result × ControlService) :=
  match RelayAlloc.decode.run r with
  | none => s.malformed key h.txnId
  | some (m, _) =>
      (s.registry.relayAlloc m.fromDev m.peerDev m.kind key conn.peer now draws.relay).bind
        fun (g, reg) =>
          if g.code ≠ .none then s.answer reg [error key h.txnId g.code]
          else s.answer reg
            [reply key .relayAllocOk h.txnId
              (RelayAllocOk.encode
                { relayId := g.id, token := g.token, kind := m.kind, maxKib := g.maxKib }),
             reply g.peerOwner .relayOffer 0
              (RelayOffer.encode
                { relayId := g.id, token := g.peerToken, kind := m.kind, fromDev := m.fromDev
                  topic := g.topic })]

/-- The cases of the `switch` of `on_message`. -/
inductive Request where
  | register
  | keepalive
  | update
  | unregister
  | lookup
  | resolve
  | topics
  | stats
  | connect
  | relayAlloc
  | unsupported
  deriving DecidableEq

/-- The case a type selects. -/
def Request.ofType (type : MsgType) : Request :=
  if type = .register then .register
  else if type = .keepalive then .keepalive
  else if type = .update then .update
  else if type = .unregister then .unregister
  else if type = .lookup then .lookup
  else if type = .resolve then .resolve
  else if type = .topics then .topics
  else if type = .stats then .stats
  else if type = .connect then .connect
  else if type = .relayAlloc then .relayAlloc
  else .unsupported

/-- The `switch` of `on_message`. -/
def dispatch (s : ControlService) (key : ConnKey) (conn : Conn) (h : Header) (r : Reader)
    (now : Instant) (draws : Draws) : Option (Result × ControlService) :=
  match Request.ofType h.type with
  | .register => s.onRegister P key conn h r now
  | .keepalive => s.onKeepalive key conn h r now
  | .update => s.onUpdate key h r now
  | .unregister => s.onUnregister key h r
  | .lookup => s.onLookup key h r now draws
  | .resolve => s.onResolve key h r now
  | .topics => s.onTopics key h r now
  | .stats => s.onStats key h now
  | .connect => s.onConnect key h r
  | .relayAlloc => s.onRelayAlloc key conn h r now draws
  | .unsupported => s.answer s.registry [error key h.txnId .unsupported]

/-- `on_message`; `admitted` is the verdict of the connection's bucket. -/
def onMessage (s : ControlService) (key : ConnKey) (msg : Bytes) (now : Instant)
    (admitted : Bool) (draws : Draws) : Option (Result × ControlService) :=
  match s.conns.lookup key with
  | none => some ({ close := true }, s)
  | some conn =>
      if !admitted then some ({ close := true }, { s with rejRateLimited := s.rejRateLimited + 1 })
      else
        match Header.decode { rest := msg } ctlVersion with
        | (none, _) => some ({ close := true }, s)
        | (some h, r) => s.dispatch P key conn h r now draws

/-! ## Datagrams

What arrives without a connection.  No reply is larger than what provoked it. -/

/-- `on_udp`; `admitted` is the verdict of the source's bucket. -/
def onUdp (s : ControlService) (src : Address) (dgram : Bytes) (now : Instant) (admitted : Bool) :
    List UdpOut × ControlService :=
  if src.val.ip.bytes ∉ s.udpBuckets && s.udpBuckets.entries.length ≥ s.maxUdpSources then ([], s)
  else
    let s := { s with udpBuckets := s.udpBuckets.insert src.val.ip.bytes now }
    if !admitted then ([], s)
    else
      match Header.decode { rest := dgram } ctlVersion with
      | (none, _) => ([], s)
      | (some h, r) =>
          if h.type = .whoAmI then
            match WhoAmI.decode.run r with
            | none => ([], s)
            | some (m, _) =>
                let rep := message .whoAmIOk h.txnId
                  (WhoAmIOk.encode { nonce := m.nonce, mapped := src })
                (if rep.length ≤ dgram.length then [{ dst := src, data := rep }] else [], s)
          else if h.type = .udpRelayBind then
            match UdpRelayBind.decode.run r with
            | none => ([], s)
            | some (m, _) =>
                let (ok, reg) := s.registry.udpBind m.relayId m.token src now
                let s := { s with registry := reg }
                if !ok then ([], s)
                else ([{ dst := src
                         data := message .udpRelayBindOk h.txnId
                           (UdpRelayBindOk.encode { relayId := m.relayId }) }], s)
          else if h.type = .relayData then
            match RelayData.decode.run r with
            | none => ([], s)
            | some (m, _) =>
                let (dst, reg) := s.registry.udpForward m.relayId src m.payload.length now
                let s := { s with registry := reg }
                match dst with
                | none => ([], s)
                | some dst => ([{ dst := dst, data := message .relayData 0 m.encode }], s)
          else ([], s)

/-- `tick`; a bucket goes when it has not been used for five minutes, and the
registry sweeps. -/
def tick (s : ControlService) (now : Instant) : ControlService :=
  { s with
    registry := s.registry.sweep now
    udpBuckets := (s.udpBuckets.entries.filter fun it => now - it.2 > seconds 300).foldl
      (fun m it => m.erase it.1) s.udpBuckets }

/-! ## Runs

The calls of the runtime, as steps. -/

/-- What happens to the service: its own calls, and the calls the runtime makes
on the registry directly. -/
inductive Event where
  | opened (key : ConnKey) (peer : Address)
  | closed (key : ConnKey)
  | message (key : ConnKey) (msg : Bytes) (now : Instant) (admitted : Bool) (draws : Draws)
  | udp (src : Address) (dgram : Bytes) (now : Instant) (admitted : Bool)
  | tick (now : Instant)
  | charge (id : RelayId) (bytes : Nat) (now : Instant)
  | stats (now : Instant)

/-- The service after an event; a random loop that has not ended changes
nothing. -/
def step (s : ControlService) : Event → ControlService
  | .opened key peer => s.onOpen key peer
  | .closed key => s.onClose key
  | .message key msg now admitted draws =>
      ((s.onMessage P key msg now admitted draws).map (·.2)).getD s
  | .udp src dgram now admitted => (s.onUdp src dgram now admitted).2
  | .tick now => s.tick now
  | .charge id bytes now => { s with registry := (s.registry.relayCharge id bytes now).2 }
  | .stats now => { s with registry := s.registry.expireFresh now }

end ControlService

end UConnect.Server
