/-
  Node/Book.lean --- the tables of a node: topics, peers, attempts, pending
  connections.

  Source: src/api/node.cpp, `Node::Impl` with `PendingConn`, `dial_all`,
  `join_relay`, `on_relay_offer`, `drive_pending`, and the calls that reach a
  peer.

  What a function does to one peer is in Node/Peer and Node/DrivePeer; here its
  effects are brought into the tables.  An operation is what the code does
  between two points at which it looks at another peer or connection, so a
  `tick` is a list of operations, and a run takes them in any order.  A message
  from the server is taken decoded.
-/
import UConnect.Foundation.FieldIndex
import UConnect.Node.DrivePeer
import UConnect.Node.PeerFrame
import UConnect.Wire.Frames

set_option autoImplicit false

namespace UConnect.Node

open UConnect.Foundation UConnect.Crypto UConnect.Wire

/-! ## Constants

The waiting times of connections that have no session yet. -/

/-- `kDialTimeout`: a connection that does not come up by then is given up. -/
def kDialTimeout : Duration := seconds 2
/-- `kInboundIdentify`: a connection that was accepted must name its attempt by
then. -/
def kInboundIdentify : Duration := seconds 10
/-- `kIntroWait`: an inbound connection may come before its introduction. -/
def kIntroWait : Duration := seconds 2
/-- `kControlTimeout`: the deadline of a connection to the server and of the
loop's requests. -/
def kControlTimeout : Duration := seconds 10

/-! ## Data model

The tables of `Node::Impl`.  A peer is filed under its topic and device, an
attempt under its nonce, which names the peer it is for. -/

/-- A peer's place: its topic and its device.  In the source each topic has a
map of its own. -/
abbrev PeerKey := TopicId × DevId

/-- `PendingConn::Kind`: dialed, accepted, or a leg of a relay. -/
inductive PendingKind where
  | dial
  | inbound
  | relayLeg
  deriving DecidableEq, Repr, Inhabited

/-- `PendingConn`, less its socket and what it sends to join a relay. -/
structure PendingConn where
  kind : PendingKind := .dial
  started : Instant := 0
  dead : Bool := false
  known : Bool := false
  topic : TopicId := Vector.replicate 16 0
  peer : DevId := Vector.replicate 16 0
  attempt : AttemptNonce := Vector.replicate 16 0
  target : Endpoint := {}
  in_ : Bytes := []
  out : Bytes := []
  greeted : Bool := false
  namedOther : Instant := 0
  reader : FrameReader := {}
  joined : Bool := false

/-- The peer a connection is for, once that is known. -/
def PendingConn.key (pc : PendingConn) : PeerKey := (pc.topic, pc.peer)

/-- `Topic::Impl`, as far as peers are concerned: the key of a keyed topic, and
the device that the server knows the node as. -/
structure TopicInfo where
  self : Option DevId := none
  psk : Option SymKey := none

/-- `Node::Impl`, as far as peers are concerned.  `established` is a history
variable: the sessions that reached `Established`, with the attempt of each. -/
structure Book where
  cfg : NodeConfig := {}
  ctlUp : Bool := false
  topics : AList (fun _ : TopicId => TopicInfo) := ∅
  peers : AList (fun _ : PeerKey => Peer) := ∅
  attempts : AList (fun _ : AttemptNonce => PeerKey) := ∅
  pending : List PendingConn := []
  established : List (PeerKey × AttemptNonce) := []

/-- What an operation takes from outside: the time, what `random_bytes` makes a
nonce, whether the peer counts are below their limits, and which endpoints a
socket can be sent to. -/
structure Ctx where
  now : Instant
  nonce : AttemptNonce
  room : Bool := true
  reach : Endpoint → Bool := fun _ => true

namespace Book

/-- The rest of the node, for a peer of a topic. -/
def env (b : Book) (t : TopicId) (x : Ctx) : Env where
  cfg := b.cfg
  self := (b.topics.lookup t).bind TopicInfo.self
  ctlUp := b.ctlUp
  room := x.room
  now := x.now
  nonce := x.nonce

/-! ## Effects

What the functions of one peer put on the record, brought into the tables in its
order. -/

/-- One candidate of `dial_all`: a connection is begun, and stands among the
pending ones under the attempt. -/
def dialOne (x : Ctx) (k : PeerKey) (n : AttemptNonce) (b : Book) (c : Candidate) : Book :=
  if c.kind = .host && c.ep.ip.isLoopback then b
  else if c.ep.port = 0 then b
  else if b.pending.any fun p =>
      !p.dead && p.kind = .dial && p.attempt = n && p.target.same c.ep then b
  else if !x.reach c.ep then b
  else
    { b with
      pending := b.pending ++ [{
        kind := .dial
        started := x.now
        known := true
        topic := k.1
        peer := k.2
        attempt := n
        target := c.ep }] }

/-- A connection of the peer made under `old` goes on under `n`. -/
def retag (k : PeerKey) (old n : AttemptNonce) (pc : PendingConn) : PendingConn :=
  if pc.known && pc.attempt = old && pc.key = k then { pc with attempt := n } else pc

/-- What a logged effect does to the tables.  Messages to the server leave them
alone. -/
def effect (x : Ctx) (k : PeerKey) (b : Book) : Effect → Book
  | .erase n => { b with attempts := b.attempts.erase n }
  | .adopt none n => { b with attempts := b.attempts.insert n k }
  | .adopt (some old) n =>
      { b with
        attempts := (b.attempts.erase old).insert n k
        pending := b.pending.map (retag k old n) }
  | .dial n cands => cands.foldl (dialOne x k n) b
  | .connect _ => b
  | .relayAlloc => b
  | .established n => { b with established := b.established ++ [(k, n)] }

/-- The effects of an entry on the tables in their order, and then its peer,
written back. -/
def commit (x : Ctx) (k : PeerKey) (b : Book) (e : Entry) : Book :=
  let b := run (effect x k) b e.effects
  { b with peers := b.peers.insert k e.peer }

end Book

/-! ## What is done to a peer

A function of one peer, applied to the peer of the table, with its effects and
callbacks. -/

/-- The calls and events that reach one peer, with what the sockets and the
random source return while they run. -/
inductive PeerAct where
  /-- `peers` or `resolve` name the peer. -/
  | learn (cands : List Candidate)
  /-- A discovery reply names the peer. -/
  | discovered (cands : List Candidate) (stale : Bool)
  /-- `connect`. -/
  | connect
  /-- An introduction arrives. -/
  | relayed (attempt : AttemptNonce) (cands : List Candidate) (io : Io)
  /-- The server refuses a relay. -/
  | relayRefused
  /-- `drive_peer`. -/
  | drive (io : Io)
  /-- The offer of `drive_dgram`. -/
  | driveOffer (udp : UdpView) (offer : List SendResult)
  /-- `send`, or a datagram sent over TCP. -/
  | send (kind : UInt8) (body : Bytes) (sends : List SendResult)
  | openDatagrams (fb : DatagramFallback)
  | closeDatagrams (sends : List SendResult)
  | sendDatagramsOverTcp
  /-- Punching, relaying or a packet changes the datagram channel. -/
  | udpActs (path : DatagramPath) (sess : Session)

/-- Does the call make the peer's record if there is none? -/
def PeerAct.makes (env : Env) (d : DevId) : PeerAct → Bool
  | .learn _ => true
  | .discovered _ _ => true
  | .relayed _ _ _ => env.self.isSome && canAdmit env { devId := d }
  | _ => false

namespace Entry

variable (P : Primitives)

/-- One call, on the peer's entry.  A device that is our own is skipped where
the source skips it. -/
def act (env : Env) (e : Entry) : PeerAct → Entry
  | .learn cands => if env.self = some e.peer.devId then e else e.withCands cands
  | .discovered cands stale =>
      if env.self = some e.peer.devId then e
      else if stale then e.withCands cands
      else (e.withCands cands).beginConnect env
  | .connect => e.beginConnect env
  | .relayed attempt cands io => e.onRelayed P env attempt cands io
  | .relayRefused => if e.peer.sess.isNone then e.endAttempt.setPeerState .failed else e
  | .drive io => e.drivePeer P env io
  | .driveOffer udp offer => (e.driveOffer P env.cfg udp env.now offer).2.2
  | .send kind body sends => (e.sendRecord P kind body env.now sends).2.2
  | .openDatagrams fb => (e.openDatagrams P env.cfg fb env.now).2
  | .closeDatagrams sends => (e.closeDatagrams P env.now sends).2.2
  | .sendDatagramsOverTcp => e.sendDatagramsOverTcp.2
  | .udpActs path sess => e.udpActs path sess

end Entry

/-! ## Pending connections

A connection is judged by what it has said: it goes on waiting, is dropped, or
is handed to the session it named. -/

/-- What a connection's socket says, and returns from its next calls. -/
structure PendingIo where
  /-- `state() == Failed`. -/
  failed : Bool := false
  /-- `state() == Connecting`. -/
  connecting : Bool := false
  recvs : List RecvResult := []
  sends : List SendResult := []

namespace PendingConn

/-- The read loop of `drive_pending`, `n` rounds of it; `none` if the connection
is dead. -/
def read : Nat → List RecvResult → PendingConn → Option PendingConn
  | 0, _, pc => some pc
  | _ + 1, [], pc => some pc
  | n + 1, r :: rs, pc =>
      match r with
      | .failed => none
      | .data [] => some pc
      | .data bytes =>
          if pc.kind = .relayLeg && !pc.joined then
            let (ok, reader) := pc.reader.feed bytes
            if !ok then none else read n rs { pc with reader := reader }
          else read n rs { pc with in_ := pc.in_ ++ bytes }

/-- The reply to a RelayJoin. -/
def join (pc : PendingConn) : Option PendingConn :=
  if pc.kind = .relayLeg && !pc.joined then
    match pc.reader.next with
    | (none, reader) => some { pc with reader := reader }
    | (some m, reader) =>
        if peekType m ≠ some .relayJoinOk then none
        else
          let (rest, reader) := reader.takeRest
          some { pc with joined := true, in_ := rest, reader := reader }
  else some pc

/-- The write loop of `drive_pending`, for what the node says first on a
connection it dialed or joined. -/
def write : List SendResult → PendingConn → Option PendingConn
  | [], pc => some pc
  | r :: rs, pc =>
      if pc.out = [] then some pc
      else
        match r with
        | .error => none
        | .wrote n => if n = 0 then some pc else write rs { pc with out := pc.out.drop n }

end PendingConn

/-- What `drive_pending` decides about a connection: it waits, it is dead, or a
session starts on it. -/
inductive PendingVerdict where
  | dead
  | wait
  /-- Say hello, and look again. -/
  | greet
  /-- `start_session`. -/
  | start
  deriving DecidableEq

namespace Book

/-- An inbound connection is identified by what it says: its first message
carries the nonce of an attempt, which the table leads to the peer. -/
def identify (b : Book) (now : Instant) (pc : PendingConn) : PendingVerdict × PendingConn :=
  match (TcpSession.peekHello pc.in_).orElse fun _ => TcpSession.peekAttempt pc.in_ with
  | none => (if pc.in_.length ≥ 2 + kAttemptLen then .dead else .wait, pc)
  | some a =>
      match b.attempts.lookup a with
      | none => (if now - pc.started < kIntroWait then .wait else .dead, pc)
      | some k =>
          (.start, { pc with known := true, attempt := a, topic := k.1, peer := k.2 })

/-- The end of `drive_pending`, for a connection whose peer is known. -/
def offerSession (b : Book) (now : Instant) (pc : PendingConn) : PendingVerdict × PendingConn :=
  match (b.topics.lookup pc.topic).bind TopicInfo.self, b.peers.lookup pc.key with
  | some self, some peer =>
      if peer.sess.isSome then (.dead, pc)
      else if smaller self peer.devId then (.start, pc)
      else if pc.kind = .dial && !pc.greeted then
        (.greet, { pc with out := pc.out ++ TcpSession.hello pc.attempt, greeted := true })
      else
        match TcpSession.peekAttempt pc.in_ with
        | none => (.wait, pc)
        | some named =>
            if named ≠ pc.attempt then
              let pc := { pc with namedOther := if pc.namedOther = 0 then now else pc.namedOther }
              (if now - pc.namedOther ≥ kIntroWait then .dead else .wait, pc)
            else (.start, pc)
  | _, _ => (.dead, pc)

/-- `drive_pending` up to where it calls `start_session` or itself. -/
def judge (b : Book) (now : Instant) (io : PendingIo) (pc : PendingConn) :
    PendingVerdict × PendingConn :=
  if pc.known && (b.attempts.lookup pc.attempt).isNone then (.dead, pc)
  else if pc.kind = .inbound && !pc.known && decide (now - pc.started > kInboundIdentify) then
    (.dead, pc)
  else if io.failed || (pc.kind = .dial && decide (now - pc.started ≥ kDialTimeout)) ||
      (pc.kind = .relayLeg && decide (now - pc.started ≥ kControlTimeout)) then (.dead, pc)
  else if io.connecting then (.wait, pc)
  else
    match (pc.read 8 io.recvs).bind fun pc => pc.join.bind fun pc => pc.write io.sends with
    | none => (.dead, pc)
    | some pc =>
        if pc.kind = .relayLeg && !pc.joined then (.wait, pc)
        else if pc.known then b.offerSession now pc
        else
          match b.identify now pc with
          | (.start, pc) => b.offerSession now pc
          | r => r

/-- `drive_pending`, which looks again once when it has said hello. -/
def drivePending (b : Book) (now : Instant) (io io' : PendingIo) (pc : PendingConn) :
    PendingVerdict × PendingConn :=
  match b.judge now io pc with
  | (.greet, pc) => b.judge now io' pc
  | r => r

end Book

/-! ## Operations

One step is what the code does under its lock without looking at another peer or
connection. -/

/-- What happens to a node, as far as its peers are concerned.  `tick` and the
calls of the application are taken apart, since the lock is all that orders
them. -/
inductive BookOp where
  /-- `join`. -/
  | join (t : TopicId) (psk : Option SymKey)
  /-- `publish`, `unpublish` or a reply of the server. -/
  | setSelf (t : TopicId) (self : Option DevId)
  /-- The control connection comes up or goes down. -/
  | control (up : Bool)
  /-- A call or an event that reaches a peer. -/
  | act (k : PeerKey) (x : Ctx) (a : PeerAct)
  /-- `on_relay_offer`, or the server grants a relay; `reach` if a socket could
  be sent there. -/
  | joinRelay (k : PeerKey) (x : Ctx) (reach : Bool) (join : Bytes)
  /-- The listener accepts a connection. -/
  | accept (target : Endpoint) (now : Instant)
  /-- `drive_pending`, with the random bytes of a handshake it may start. -/
  | drivePending (i : Nat) (x : Ctx) (io io' : PendingIo) (random : SecretKey)
      (padding : Vector UInt8 16) (peerIo : Io)
  /-- The dead connections are erased. -/
  | reap
  /-- `disconnect`; `disconnect_all` is one for each peer. -/
  | disconnect (k : PeerKey) (x : Ctx) (reason : UInt16) (sends : List SendResult)
  /-- `trim_peer_cache` drops the peer. -/
  | trim (k : PeerKey)

namespace Book

variable (P : Primitives)

/-- The entry of a call on a peer, if the call finds the peer or makes it. -/
def called (b : Book) (k : PeerKey) (x : Ctx) (a : PeerAct) : Option Entry :=
  if (b.topics.lookup k.1).isNone then none
  else
    match b.peers.lookup k with
    | some p => some (({ peer := p } : Entry).act P (b.env k.1 x) a)
    | none =>
        if a.makes (b.env k.1 x) k.2 then
          some (({ peer := { devId := k.2 } } : Entry).act P (b.env k.1 x) a)
        else none

/-- The leg of `join_relay`.  It is known whom it is for, and its first message
to the server is in `out`. -/
def relayLeg (x : Ctx) (k : PeerKey) (n : AttemptNonce) (join : Bytes) : PendingConn where
  kind := .relayLeg
  started := x.now
  known := true
  topic := k.1
  peer := k.2
  attempt := n
  out := join

/-- What `start_session` takes from a connection: who dialed, whether it leads
through a relay, and the bytes read behind the identification. -/
def connection (b : Book) (pc : PendingConn) (random : SecretKey) (padding : Vector UInt8 16) :
    Entry.Connection where
  topic := pc.topic
  psk := (b.topics.lookup pc.topic).bind TopicInfo.psk
  attempt := pc.attempt
  relayLeg := pc.kind = .relayLeg
  received := pc.in_
  random := random
  padding := padding

/-- What an operation does to the tables itself, and the entry of the peer it
then works on. -/
def outcome (b : Book) : BookOp → Book × Option (PeerKey × Ctx × Entry)
  | .join t psk =>
      (if (b.topics.lookup t).isSome then b
        else { b with topics := b.topics.insert t { psk := psk } }, none)
  | .setSelf t self =>
      (match b.topics.lookup t with
        | none => b
        | some ti => { b with topics := b.topics.insert t { ti with self := self } }, none)
  | .control up => ({ b with ctlUp := up }, none)
  | .act k x a => (b, (b.called P k x a).map fun e => (k, x, e))
  | .joinRelay k x reach join =>
      match b.peers.lookup k with
      | none => (b, none)
      | some p =>
          match p.attempt with
          | none => (b, none)
          | some n =>
              if p.sess.isSome || p.relayJoining then (b, none)
              else
                (if reach then { b with pending := b.pending ++ [relayLeg x k n join] } else b,
                  some (k, x, { peer := { p with relayJoining := true } }))
  | .accept target now =>
      ({ b with
        pending := b.pending ++ [{ kind := .inbound, target := target, started := now }] }, none)
  | .drivePending i x io io' random padding peerIo =>
      match b.pending[i]? with
      | none => (b, none)
      | some pc =>
          if pc.dead then (b, none)
          else
            match b.drivePending x.now io io' pc with
            | (.start, pc) =>
                ({ b with pending := b.pending.set i { pc with dead := true } },
                  (b.peers.lookup pc.key).map fun p =>
                    (pc.key, x, ({ peer := p } : Entry).startSession P (b.env pc.topic x)
                      (b.connection pc random padding) peerIo))
            | (.dead, pc) => ({ b with pending := b.pending.set i { pc with dead := true } }, none)
            | (_, pc) => ({ b with pending := b.pending.set i pc }, none)
  | .reap => ({ b with pending := b.pending.filter fun pc => !pc.dead }, none)
  | .disconnect k x reason sends =>
      (b, (b.peers.lookup k).map fun p =>
        (k, x, ({ peer := p } : Entry).disconnectPeer P reason sends))
  | .trim k =>
      (if (b.peers.lookup k).any fun p => p.sess.isNone && p.attempt.isNone && p.retryAt = 0 then
          { b with peers := b.peers.erase k }
        else b, none)

/-- Is the peer erased in the end? `disconnect_peer` works on the entry first,
and the call erases it afterwards. -/
def drops : BookOp → Bool
  | .disconnect .. => true
  | _ => false

/-- One step: the tables first, then the peer's entry with its effects on the
tables, and last its erasure. -/
def step (b : Book) (op : BookOp) : Book :=
  match b.outcome P op with
  | (b, none) => b
  | (b, some (k, x, e)) =>
      let b := b.commit x k e
      if drops op then { b with peers := b.peers.erase k } else b

/-- Every effect of the operation on the tables meets `C`, read where it takes
place. -/
def AllEffects (C : PeerKey → Book → Effect → Prop) (b : Book) (op : BookOp) : Prop :=
  match b.outcome P op with
  | (_, none) => True
  | (b, some (k, x, e)) => AllSteps (C k) (effect x k) b e.effects

instance AllEffects.decidable {C : PeerKey → Book → Effect → Prop} [∀ k b f, Decidable (C k b f)]
    (b : Book) (op : BookOp) : Decidable (b.AllEffects P C op) :=
  match h : b.outcome P op with
  | (_, none) => .isTrue (by unfold AllEffects; rw [h]; trivial)
  | (b', some (k, x, e)) =>
      decidable_of_iff (AllSteps (C k) (effect x k) b' e.effects) (by unfold AllEffects; rw [h])

end Book

end UConnect.Node
