/-
  Node/Peer.lean --- a peer as a node keeps it, and what all its users share.

  Source: src/api/node.cpp, with the enumerations of
  include/uconnect/uconnect.hpp.

  A function of the code that works on one peer works here on an `Entry`: the
  peer's record, the callbacks queued for it and what it did to the node's
  tables, both in order.  Such a function never reads a table it has written, so
  the tables can be brought up to date afterwards.  The application is taken to
  have set every callback.  Sockets are not modelled; what they return is an
  argument, a list of results in the order of the calls.
-/
import UConnect.Node.Payloads

set_option autoImplicit false

namespace UConnect.Node

open UConnect.Foundation UConnect.Crypto UConnect.Wire

/-! ## Constants

The kinds of record the node itself understands, and the limits it keeps. -/

/-- `kMessageRecord`, a message of the application. -/
def kMessageRecord : UInt8 := 0x10
/-- `kDgramOffer`: epoch, rekey shift and UDP candidates of a channel. -/
def kDgramOffer : UInt8 := 0x11
/-- `kDgramOverTcp`, one datagram of a channel that could not have UDP. -/
def kDgramOverTcp : UInt8 := 0x12
/-- `kDgramClose`, the epoch of a channel that is closed. -/
def kDgramClose : UInt8 := 0x13
/-- `kMaxQueued`: a peer that reads slowly must not grow our memory without
bound. -/
def kMaxQueued : Nat := 16 * 2 ^ 20
/-- `kGatherWait`: how long an offer waits for our own UDP mapping. -/
def kGatherWait : Duration := milliseconds 1500
/-- `Topic::max_datagram`, what is left of a datagram after the headers and the
tag. -/
def maxDatagram : Nat := 1100

/-! ## Data model

What the source spreads over `Peer`, `Dgram` and the public enumerations, less
the parts that only sockets use. -/

/-- `PeerState`, as the application sees it. -/
inductive PeerState where
  | unknown
  | probing
  | handshaking
  | connected
  | failed
  | closed
  deriving DecidableEq, Repr, Inhabited

/-- `PeerGone`: why a peer that was connected is not any more. -/
inductive PeerGone where
  | local
  | timedOut
  | goingAway
  | shuttingDown
  | unspecified
  deriving DecidableEq, Repr, Inhabited

/-- `DatagramFallback`: what to do when no UDP path is found. -/
inductive DatagramFallback where
  | tcp
  | relay
  | none
  deriving DecidableEq, Repr, Inhabited

/-- `DatagramPath`: which way datagrams go now. -/
inductive DatagramPath where
  | none
  | opening
  | direct
  | relayed
  | tcp
  | failed
  deriving DecidableEq, Repr, Inhabited

theorem defaultShift_range : 7 ≤ 16 ∧ 16 ≤ 63 := by decide

/-- `Node::Config`; the constructor rejects a shift out of range, so a
configuration with one cannot be built here. -/
structure NodeConfig where
  keepalive : Duration := seconds 20
  punchTimeout : Duration := seconds 8
  forceRelay : Bool := false
  datagramFallback : DatagramFallback := .tcp
  rekeyShift : Nat := 16
  rekeyShift_range : 7 ≤ rekeyShift ∧ rekeyShift ≤ 63 := by
    first | exact defaultShift_range | decide

/-- `session_cfg`: the keepalive is the node's, everything else the default. -/
def NodeConfig.sessionCfg (cfg : NodeConfig) : TcpSessionConfig :=
  { keepalive := cfg.keepalive }

/-- What punching and relaying keep in a `Dgram`.  Of the punch session it is
only known whether there is one; of the session's queue, how much of it was
polled. -/
structure DgramUdp where
  punch : Bool := false
  direct : Option Endpoint := none
  relaying : Bool := false
  relayAsked : Bool := false
  relayBackupAt : Instant := 0
  relayDeadline : Instant := 0
  relayId : Option Nat := none
  relayToken : Bytes := []
  relayBound : Bool := false
  nextBind : Instant := 0
  polled : Nat := 0
  deriving DecidableEq

/-- `Dgram`, one datagram channel.  `remote` are the peer's candidates once its
offer is here, `overTcp` says that the application sends its datagrams through
the session all the same. -/
structure Dgram where
  epoch : Nat
  fallback : DatagramFallback := .tcp
  path : DatagramPath := .opening
  overTcp : Bool := false
  probeKey : SymKey
  connId : ConnId
  opened : Instant
  offered : Bool := false
  remote : Option (List Candidate) := none
  sess : Session
  udp : DgramUdp := {}
  deriving DecidableEq

/-- `Peer`, less its link counters.  `sockOpen` is `sock.is_open()`. -/
structure Peer where
  devId : DevId
  cands : List Candidate := []
  state : PeerState := .unknown
  attempt : Option AttemptNonce := none
  attemptStarted : Instant := 0
  punchDeadline : Instant := 0
  nextRedial : Instant := 0
  relayBackupAt : Instant := 0
  relayAsked : Bool := false
  relayJoining : Bool := false
  retryAt : Instant := 0
  retries : Nat := 0
  waitingIntro : Option AttemptNonce := none
  waitingIntroAt : Instant := 0
  sess : Option TcpSession := none
  sockOpen : Bool := false
  out : Bytes := []
  relayed : Bool := false
  dgram : Option Dgram := none
  dgramEpoch : Nat := 0
  deriving DecidableEq

/-- A callback on the `deferred` queue. -/
inductive Notice where
  /-- `on_peer`. -/
  | peer (state : PeerState)
  /-- `on_peer_closed`. -/
  | peerClosed (why : PeerGone)
  /-- `on_data`. -/
  | data (body : Bytes)
  /-- `on_datagram`. -/
  | datagram (body : Bytes)
  /-- `on_datagram_path`. -/
  | datagramPath (path : DatagramPath)
  deriving DecidableEq

/-- What a function does to the node's tables beside the peer's own record. -/
inductive Effect where
  /-- `attempts.erase(n)`. -/
  | erase (n : AttemptNonce)
  /-- `adopt_attempt`: the old nonce leaves `attempts`, its connections are
  tagged with the new one, and the new one is entered. -/
  | adopt (old : Option AttemptNonce) (n : AttemptNonce)
  /-- `notify` of a CONNECT that introduces us under `n`. -/
  | connect (n : AttemptNonce)
  /-- `dial_all`: connections to the candidates under `n`. -/
  | dial (n : AttemptNonce) (cands : List Candidate)
  /-- `request` of a relay. -/
  | relayAlloc
  /-- History variable: a session reached `Established` under `n`. -/
  | established (n : AttemptNonce)
  deriving DecidableEq

/-- A peer, the callbacks queued for it, and what was done to the node's tables
on its account. -/
structure Entry where
  peer : Peer
  deferred : List Notice := []
  effects : List Effect := []
  deriving DecidableEq

/-- What a `send` on the peer's socket returns: how much it took, zero if it
would block. -/
inductive SendResult where
  | error
  | wrote (n : Nat)
  deriving DecidableEq

/-- `smaller`: a lexicographic comparison of the bytes. -/
def smaller (a b : DevId) : Bool := decide (a.toList < b.toList)

namespace Entry

variable (P : Primitives)

/-- A callback joins the queue. -/
def defer (e : Entry) (n : Notice) : Entry := { e with deferred := e.deferred ++ [n] }

/-- `set_peer_state`: the application is told of a change, and only of a change. -/
def setPeerState (e : Entry) (s : PeerState) : Entry :=
  if e.peer.state = s then e else { e with peer := { e.peer with state := s } }.defer (.peer s)

/-! ## Writing to the socket

What a session seals is queued for the socket, and the queue has a limit.  The
results of the calls of `send` are an argument, in order. -/

/-- `flush_peer`; with no result left the socket would block.  An error closes
the socket and ends the session, which then has an event nobody has polled yet. -/
def flushPeer : List SendResult → Entry → List SendResult × Entry
  | [], e => ([], e)
  | r :: rs, e =>
      if e.peer.out = [] || !e.peer.sockOpen then (r :: rs, e)
      else
        match r with
        | .error =>
            (rs, { e with
              peer := { e.peer with
                sockOpen := false
                sess := e.peer.sess.map TcpSession.onEof } })
        | .wrote n =>
            if n = 0 then (rs, e)
            else flushPeer rs { e with peer := { e.peer with out := e.peer.out.drop n } }

/-- `send_record`.  Application data is refused before it is sealed when the
queue is full, so that a refusal spends no nonce; notices always go. -/
def sendRecord (e : Entry) (kind : UInt8) (body : Bytes) (now : Instant)
    (io : List SendResult) : Bool × List SendResult × Entry :=
  let overhead := 4 + 1 + kTagLen
  if (kind = kMessageRecord || kind = kDgramOverTcp) &&
      (body.length > kMaxQueued - overhead ||
        e.peer.out.length > kMaxQueued - overhead - body.length) then (false, io, e)
  else
    match e.peer.sess with
    | none => (false, io, e)
    | some s =>
        let (sent, s) := s.send P kind body now
        if !sent then (false, io, e)
        else
          let (bytes, s) := s.takeOutput
          (true, flushPeer io
            { e with peer := { e.peer with sess := some s, out := e.peer.out ++ bytes } })

/-! ## Datagram channels

A channel is opened by either side and accepted by the other.  An epoch names
it: with the epoch go the keys, and an epoch that was used once is never used
again. -/

/-- `dgram_set_path`.  A channel whose datagrams the application sends through
the session does not report a UDP path, although it records it. -/
def dgramSetPath (e : Entry) (p : DatagramPath) : Entry :=
  match e.peer.dgram with
  | none => e.defer (.datagramPath p)
  | some d =>
      if d.path = p then e
      else
        let e := { e with peer := { e.peer with dgram := some { d with path := p } } }
        if d.overTcp && (p = .direct || p = .relayed) then e else e.defer (.datagramPath p)

/-- `dgram_drop`: the channel goes, and the application is told that there is no
path. -/
def dgramDrop (e : Entry) : Entry :=
  match e.peer.dgram with
  | none => e
  | some _ => { e with peer := { e.peer with dgram := none } }.dgramSetPath .none

/-- The channel `dgram_open` builds. -/
def newDgram (cfg : NodeConfig) (epoch : Nat) (fb : DatagramFallback) (keys : DatagramKeys)
    (now : Instant) : Dgram where
  epoch := epoch
  fallback := fb
  path := .none
  probeKey := keys.probe
  connId := keys.connId
  opened := now
  sess := Session.create { rekeyShift := cfg.rekeyShift } {} keys.send keys.recv keys.connId now

/-- `dgram_open`; its callers hold a session.  The keys come from the session
and can be had once, so a second channel under the epoch cannot be opened. -/
def dgramOpen (cfg : NodeConfig) (e : Entry) (epoch : Nat) (fb : DatagramFallback)
    (now : Instant) : Bool × Entry :=
  match e.peer.sess with
  | none => (false, e)
  | some s =>
      let (keys, s) := s.datagramKeys P epoch
      let e := { e with peer := { e.peer with sess := some s } }
      match keys with
      | none => (false, e)
      | some keys =>
          let e := { e with
            peer := { e.peer with
              dgram := some (newDgram cfg epoch fb keys now)
              dgramEpoch := max e.peer.dgramEpoch epoch } }
          (true, e.dgramSetPath .opening)

/-- The end of `dgram_on_offer`: the first offer for the channel is taken. -/
def takeOffer (cfg : NodeConfig) (e : Entry) (rekeyShift : Nat) (cands : List Candidate) :
    Entry :=
  match e.peer.dgram with
  | none => e
  | some d =>
      if d.remote.isSome then e
      else
        let (ok, sess) := d.sess.configureRekeyShift (min cfg.rekeyShift rekeyShift)
        if !ok then e
        else
          { e with
            peer := { e.peer with dgram := some { d with sess := sess, remote := some cands } } }

/-- `dgram_on_offer`.  Of two channels the one with the higher epoch stands; an
offer for an epoch at or below the highest one used is dropped without a word
when there is no channel. -/
def dgramOnOffer (cfg : NodeConfig) (e : Entry) (body : Bytes) (now : Instant) : Entry :=
  match decodeDgramOffer body with
  | none => e
  | some (epoch, rekeyShift, cands) =>
      match e.peer.dgram with
      | some d =>
          if epoch < d.epoch then e
          else if epoch > d.epoch then
            if epoch ≤ e.peer.dgramEpoch then e
            else
              let (ok, e) := dgramOpen P cfg e epoch d.fallback now
              if !ok then e else takeOffer cfg e rekeyShift cands
          else takeOffer cfg e rekeyShift cands
      | none =>
          if epoch ≤ e.peer.dgramEpoch then e
          else
            let (ok, e) := dgramOpen P cfg e epoch cfg.datagramFallback now
            if !ok then e else takeOffer cfg e rekeyShift cands

/-- The record half of the event loop of `drive_peer`. -/
def onRecord (cfg : NodeConfig) (e : Entry) (kind : UInt8) (body : Bytes) (now : Instant) :
    Entry :=
  if kind = kMessageRecord then e.defer (.data body)
  else if kind = kDgramOffer then dgramOnOffer P cfg e body now
  else if kind = kDgramOverTcp then
    if body.length ≤ maxDatagram then e.defer (.datagram body) else e
  else if kind = kDgramClose then
    match decodeU32 body, e.peer.dgram with
    | some epoch, some d => if d.epoch = epoch then e.dgramDrop else e
    | _, _ => e
  else e

/-! ## What changes and what does not

The frame of the functions above: which fields of a peer each of them can touch,
and what it can put on the record. -/

@[simp] theorem defer_peer (e : Entry) (n : Notice) : (e.defer n).peer = e.peer := rfl
@[simp] theorem defer_effects (e : Entry) (n : Notice) : (e.defer n).effects = e.effects := rfl
@[simp] theorem defer_deferred (e : Entry) (n : Notice) :
    (e.defer n).deferred = e.deferred ++ [n] := rfl

@[simp] theorem setPeerState_peer (e : Entry) (s : PeerState) :
    (e.setPeerState s).peer = { e.peer with state := s } := by
  unfold setPeerState
  split
  · rename_i h
    subst h
    rfl
  · rfl

@[simp] theorem setPeerState_effects (e : Entry) (s : PeerState) :
    (e.setPeerState s).effects = e.effects := by
  unfold setPeerState
  split <;> rfl

theorem setPeerState_deferred (e : Entry) (s : PeerState) :
    (e.setPeerState s).deferred =
      e.deferred ++ if e.peer.state = s then [] else [.peer s] := by
  unfold setPeerState
  split <;> simp

end Entry

/-- Writing a field's own value back. -/
theorem Peer.dgram_eta {p : Peer} {d : Option Dgram} (h : p.dgram = d) :
    { p with dgram := d } = p := by
  subst h
  rfl

namespace Entry

/-- Setting the path changes nothing else. -/
theorem dgramSetPath_peer (e : Entry) (p : DatagramPath) :
    (e.dgramSetPath p).peer =
      { e.peer with dgram := e.peer.dgram.map fun d => { d with path := p } } := by
  unfold dgramSetPath
  cases hd : e.peer.dgram with
  | none => exact (Peer.dgram_eta hd).symm
  | some d =>
      simp only [Option.map_some]
      rcases Decidable.em (d.path = p) with hp | hp
      · rw [if_pos hp, ← hp]
        exact (Peer.dgram_eta hd).symm
      · rw [if_neg hp]
        split <;> rfl

@[simp] theorem dgramSetPath_effects (e : Entry) (p : DatagramPath) :
    (e.dgramSetPath p).effects = e.effects := by
  unfold dgramSetPath
  split
  · rfl
  · split
    · rfl
    · simp only
      split <;> rfl

@[simp] theorem dgramDrop_peer (e : Entry) :
    e.dgramDrop.peer = { e.peer with dgram := none } := by
  unfold dgramDrop
  cases hd : e.peer.dgram with
  | none => exact (Peer.dgram_eta hd).symm
  | some d => rw [dgramSetPath_peer, Option.map_none]

@[simp] theorem dgramDrop_effects (e : Entry) : e.dgramDrop.effects = e.effects := by
  unfold dgramDrop
  split
  · rfl
  · simp

end Entry

end UConnect.Node
