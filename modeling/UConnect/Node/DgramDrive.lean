/-
  Node/DgramDrive.lean --- a datagram channel on UDP: punching, the relay, and
  packets in and out.

  Source: src/api/node.cpp, `on_udp`, `on_udp_from_server`, `dgram_fall_back`,
  `dgram_relay_granted`, `flush_dgram`, `drive_dgram` and `send_datagram`.

  The punch session is not modelled; what its poll loop yields on a turn is an
  argument.  Probes reach nothing else, so they change nothing here.  What
  leaves the node is returned, messages to the server before their encoding.
-/
import UConnect.Node.Datagrams
import UConnect.Node.DrivePeer
import UConnect.Wire.Frames

set_option autoImplicit false

namespace UConnect.Node

open UConnect.Foundation UConnect.Crypto UConnect.Wire

/-! ## Constants

The waiting times of a relay for datagrams, and the types of what the server
sends. -/

/-- `kUdpRelayWait`: how long a relay may take before the channel has failed. -/
def kUdpRelayWait : Duration := seconds 10
/-- `kUdpBindEvery`: a bind is repeated until it is answered, since either
datagram may be lost. -/
def kUdpBindEvery : Duration := milliseconds 500
/-- `ctl::kVersion`: the version byte tells the server's datagrams from a
peer's. -/
def kControlVersion : UInt8 := 0x02
/-- `MsgType::RelayData`, a packet of the peer's through the relay. -/
def kRelayData : MsgType := 0x17
/-- `MsgType::UdpRelayBindOk`, the answer to a bind. -/
def kUdpRelayBindOk : MsgType := 0x1E

/-! ## What the node knows, and what it sends

The socket, the server's address and the punch session are the node's; what is
read of them is an argument. -/

/-- What the datagram functions read of their node.  None of them writes it. -/
structure DgramEnv where
  udp : UdpView := {}
  /-- `server`. -/
  server : Endpoint := {}
  /-- `ctl_state == Ctl::Up`. -/
  ctlUp : Bool := false
  /-- `ti.self`. -/
  self : Option DevId := none
  deriving DecidableEq

/-- What leaves the node for a channel.  A request to the server is given before
its encoding; packets are the bytes of the channel's session. -/
inductive DgramSend where
  /-- A packet, straight to the peer. -/
  | packet («to» : Endpoint) (data : Bytes)
  /-- A packet inside a `RelayData`. -/
  | relayData (relayId : Nat) (payload : Bytes)
  /-- A `UdpRelayBind`. -/
  | relayBind (relayId : Nat) (token : Bytes)
  /-- The control request for a relay, and the `dgram_epoch` it is remembered
  under. -/
  | relayAlloc (epoch : Nat)
  deriving DecidableEq

/-- The packet a send carries, whichever way it goes. -/
def DgramSend.packet? : DgramSend → Option Bytes
  | .packet _ data => some data
  | .relayData _ payload => some payload
  | .relayBind _ _ => none
  | .relayAlloc _ => none

/-- `PunchEvent`, of the punch session's poll loop, less the fields nothing here
reads. -/
inductive PunchEvent where
  | pathValidated
  | nominated (path : Endpoint)
  | failed
  deriving DecidableEq

/-- What the punch session does on a turn: the events it yields, and whether it
is neither probing nor waiting for a timeout behind them. -/
structure PunchTurn where
  events : List PunchEvent := []
  done : Bool := false
  deriving DecidableEq

/-- `RelayData::decode`, with `read_blob16_capped` for its payload: more than a
datagram may have is refused. -/
def decodeRelayData (r : Reader) : Option (Nat × Bytes) :=
  let (relayId, r) := r.u64
  let (n, r) := r.u16
  if n > kMaxDatagram then none
  else
    let (payload, r) := r.bytes n
    if !r.ok then none else some (relayId, payload)

/-- `UdpRelayBindOk::decode`; only the id is of interest. -/
def decodeUdpRelayBindOk (r : Reader) : Option Nat :=
  let (relayId, r) := r.u64
  if !r.ok then none else some relayId

namespace Entry

variable (P : Primitives)

/-- The channel is written back.  The source holds a reference into the peer. -/
def setDgram (e : Entry) (d : Dgram) : Entry := { e with peer := { e.peer with dgram := some d } }

/-- The channel's UDP half is written back. -/
def setUdp (e : Entry) (d : Dgram) (u : DgramUdp) : Entry := e.setDgram { d with udp := u }

/-! ## Falling back

What becomes of a channel that found no path of its own. -/

/-- `set_path(server)`, with the path reported: from now on the session's
packets go to the server, and `route` wraps them. -/
def relayUp (e : Entry) (d : Dgram) (server : Endpoint) (now : Instant) : Entry :=
  (e.setDgram { d with
    sess := d.sess.setPath server now
    udp := { d.udp with relaying := false } }).dgramSetPath .relayed

/-- `dgram_fall_back`.  The relay is not asked for here: the channel only begins
to wait for it, unless the peer's wait has bound it already. -/
def dgramFallBack (e : Entry) (d : Dgram) (server : Endpoint) (now : Instant) : Entry :=
  let d := { d with udp := { d.udp with punch := false } }
  match d.fallback with
  | .tcp => (e.setDgram d).dgramSetPath .tcp
  | .none => (e.setDgram d).dgramSetPath .failed
  | .relay =>
      let d := { d with
        udp := { d.udp with
          relaying := true
          relayDeadline := now + kUdpRelayWait
          relayBackupAt := now + kRelayBackupDelay } }
      -- already bound for the peer's sake
      if d.udp.relayBound then e.relayUp d server now else e.setDgram d

/-- `dgram_relay_granted`: a relay of the server, by our own request or the
peer's.  A new one is bound at the next turn; the same one again changes
nothing. -/
def dgramRelayGranted (e : Entry) (id : Nat) (token : Bytes) (now : Instant) : Entry :=
  match e.peer.dgram with
  | none => e
  | some d =>
      if d.udp.relayId = some id then e
      else
        e.setUdp d { d.udp with
          relayId := some id, relayToken := token, relayBound := false, nextBind := now }

/-- The answer to the request made for `epoch`: a relay. -/
def relayAllocOk (e : Entry) (epoch id : Nat) (token : Bytes) (now : Instant) : Entry :=
  if e.peer.dgram.any fun d => d.epoch = epoch then e.dgramRelayGranted id token now else e

/-- The answer to the request made for `epoch`: an error.  A channel that waits
for the relay has nowhere else to go. -/
def relayAllocRefused (e : Entry) (epoch : Nat) : Entry :=
  match e.peer.dgram with
  | none => e
  | some d =>
      if d.epoch = epoch && d.udp.relaying then
        (e.setUdp d { d.udp with relaying := false }).dgramSetPath .failed
      else e

/-! ## Datagrams in

A datagram is of a channel if its id is the channel's, or the relay's it came
through.  Until the peer's offer is here nothing is opened: its schedule is not
known yet. -/

/-- `on_udp_from_server`, for the channel its relay id names: the server has
bound us, or passes on a packet of the peer's. -/
def onUdpFromServer (e : Entry) (env : DgramEnv) (dgram : Bytes) (now : Instant) : Entry :=
  match Header.decode { rest := dgram } kControlVersion, e.peer.dgram with
  | (some h, r), some d =>
      if h.type = kUdpRelayBindOk then
        match decodeUdpRelayBindOk r with
        | none => e
        | some id =>
            if d.udp.relayId ≠ some id then e
            else
              let d := { d with udp := { d.udp with relayBound := true } }
              if d.udp.relaying then e.relayUp d env.server now else e.setDgram d
      else if h.type = kRelayData then
        match decodeRelayData r with
        | none => e
        | some (id, payload) =>
            if d.udp.relayId ≠ some id || d.remote.isNone then e
            else e.setDgram { d with sess := d.sess.onDatagram P env.server payload now }
      else e
  | _, _ => e

/-- `on_udp`, for the channel of this peer.  The node tries its channels in
turn; one whose id is another changes nothing. -/
def onUdp (e : Entry) (env : DgramEnv) (src : Endpoint) (dgram : Bytes) (now : Instant) :
    Entry :=
  match dgram with
  | _ :: version :: _ =>
      if version = kControlVersion then
        if src.same env.server then e.onUdpFromServer P env dgram now else e
      else
        match peekType dgram with
        | none => e
        | some type =>
            if type = MsgType.transport || type = MsgType.close then
              match decodeU32 (dgram.drop Header.kSize), e.peer.dgram with
              | some cid, some d =>
                  if d.remote.isNone || d.connId ≠ cid then e
                  else e.setDgram { d with sess := d.sess.onDatagram P src dgram now }
              | _, _ => e
            else e
  | _ => e

/-! ## Datagrams out

What the session queued goes to the peer or, in the relay's wrapping, to the
server. -/

/-- Where `flush_dgram` sends a packet, if anywhere: nowhere without a path,
through the relay if the path is the server, and else straight to the peer. -/
def route (server : Endpoint) (d : Dgram) (o : Outgoing) : Option DgramSend :=
  if o.to.port = 0 then none
  else if o.to.same server then d.udp.relayId.map fun id => .relayData id o.data
  else some (.packet o.to o.data)

/-- `flush_dgram`: what the session has queued since the last time.  Without a
socket nothing is taken from the queue. -/
def flushDgram (e : Entry) (env : DgramEnv) : List DgramSend × Entry :=
  match e.peer.dgram with
  | none => ([], e)
  | some d =>
      if !env.udp.ready then ([], e)
      else
        ((d.sess.out.drop d.udp.polled).filterMap (route env.server d),
          e.setUdp d { d.udp with polled := d.sess.out.length })

/-- A datagram as a record of the TCP session, where the channel has no path of
its own. -/
def datagramRecord (e : Entry) (payload : Bytes) (now : Instant) (io : List SendResult) :
    Bool × List Record × List DgramSend × List SendResult × Entry :=
  let (ok, io, e) := e.sendRecord P kDgramOverTcp payload now io
  (ok, if ok then [(kDgramOverTcp, payload)] else [], [], io, e)

/-- `send_datagram`, with the record the TCP session accepted. -/
def sendDatagram (e : Entry) (env : DgramEnv) (payload : Bytes) (now : Instant)
    (io : List SendResult) : Bool × List Record × List DgramSend × List SendResult × Entry :=
  if payload.isEmpty || payload.length > maxDatagram || e.peer.sess.isNone then
    (false, [], [], io, e)
  else
    match e.peer.dgram with
    | none => (false, [], [], io, e)
    | some d =>
        if d.path = .direct || d.path = .relayed then
          if d.overTcp then e.datagramRecord P payload now io
          else
            match d.sess.send P payload now with
            | (none, sess) => (false, [], [], io, e.setDgram { d with sess := sess })
            | (some _, sess) =>
                let (sends, e) := (e.setDgram { d with sess := sess }).flushDgram env
                (true, [], sends, io, e)
        else if d.path = .tcp then e.datagramRecord P payload now io
        else (false, [], [], io, e)

/-! ## Driving a channel

One look at a channel in each tick, in the parts the source has: the offer, the
punching, the relay, the binding, the session. -/

/-- Both offers exchanged: punch, unless there is nothing to punch with. -/
def startPunch (cfg : NodeConfig) (e : Entry) (env : DgramEnv) (now : Instant) : Entry :=
  match e.peer.dgram with
  | none => e
  | some d =>
      match d.remote with
      | none => e
      | some cands =>
          if d.path = .opening && !d.udp.relaying && d.offered && !d.udp.punch then
            if cfg.forceRelay || !env.udp.ready || cands.isEmpty then
              e.dgramFallBack d env.server now
            else e.setUdp d { d.udp with punch := true }
          else e

/-- The poll loop over the punch session's events.  Falling back ends it, since
it drops the punch session. -/
def punchEvents (env : DgramEnv) (now : Instant) : List PunchEvent → Entry → Entry
  | [], e => e
  | ev :: evs, e =>
      match e.peer.dgram with
      | none => e
      | some d =>
          if d.path ≠ .opening then punchEvents env now evs e
          else
            match ev with
            | .pathValidated => punchEvents env now evs e
            | .nominated path =>
                punchEvents env now evs ((e.setDgram { d with
                  sess := d.sess.setPath path now
                  udp := { d.udp with direct := some path } }).dgramSetPath .direct)
            | .failed => e.dgramFallBack d env.server now

/-- The punch session's turn.  One that is neither probing nor waiting is
dropped. -/
def drivePunch (e : Entry) (env : DgramEnv) (turn : PunchTurn) (now : Instant) : Entry :=
  if e.peer.dgram.any fun d => d.udp.punch then
    let e := punchEvents env now turn.events e
    match e.peer.dgram with
    | none => e
    | some d => if d.udp.punch && turn.done then e.setUdp d { d.udp with punch := false } else e
  else e

/-- The request for a relay.  The smaller dev_id asks first, the other if no
offer came in time; a channel whose relay did not come at all has failed. -/
def driveRelay (e : Entry) (env : DgramEnv) (now : Instant) : List DgramSend × Entry :=
  match e.peer.dgram with
  | none => ([], e)
  | some d =>
      if d.udp.relaying then
        let designated := env.self.any fun self => smaller self e.peer.devId
        let ask := !d.udp.relayAsked && d.udp.relayId.isNone && env.ctlUp && env.self.isSome &&
          (designated || decide (now ≥ d.udp.relayBackupAt))
        let d := { d with udp := { d.udp with relayAsked := d.udp.relayAsked || ask } }
        (if ask then [.relayAlloc d.epoch] else [],
          if now ≥ d.udp.relayDeadline then
            (e.setUdp d { d.udp with relaying := false }).dgramSetPath .failed
          else e.setDgram d)
      else ([], e)

/-- A granted relay is bound, again and again until the server says so. -/
def driveBind (e : Entry) (env : DgramEnv) (now : Instant) : List DgramSend × Entry :=
  match e.peer.dgram with
  | none => ([], e)
  | some d =>
      match d.udp.relayId with
      | none => ([], e)
      | some id =>
          if !d.udp.relayBound && decide (now ≥ d.udp.nextBind) && env.udp.ready then
            ([.relayBind id d.udp.relayToken],
              e.setUdp d { d.udp with nextBind := now + kUdpBindEvery })
          else ([], e)

/-- One event of the channel's session: data for the application, or another
path the peer's packets come by. -/
def sessionEvent (env : DgramEnv) (now : Instant) (e : Entry) (ev : SessionEvent) : Entry :=
  match e.peer.dgram with
  | none => e
  | some d =>
      match ev with
      | .data body => e.defer (.datagram body)
      | .pathChanged path =>
          if !path.same env.server then
            (e.setUdp d { d.udp with
              direct := some path, punch := false, relaying := false }).dgramSetPath .direct
          else if d.fallback = .relay then
            (e.setUdp d { d.udp with punch := false, relaying := false }).dgramSetPath .relayed
          else
            match d.udp.direct with
            | some direct => e.setDgram { d with sess := d.sess.setPath direct now }
            | none => e
      | .closed _ _ => e.dgramSetPath (if d.fallback = .tcp then .tcp else .failed)

/-- Keepalives once the peer's offer is there and a path with it, then the
session's events. -/
def driveSession (e : Entry) (env : DgramEnv) (now : Instant) : Entry :=
  match e.peer.dgram with
  | none => e
  | some d =>
      let sess := if d.remote.isSome && d.sess.path.port ≠ 0 then d.sess.onTimeout P now else d.sess
      sess.events.foldl (sessionEvent env now)
        (e.setDgram { d with sess := { sess with events := [] } })

/-- `drive_dgram`, with the record the TCP session accepted. -/
def driveDgram (cfg : NodeConfig) (e : Entry) (env : DgramEnv) (turn : PunchTurn)
    (now : Instant) (io : List SendResult) :
    List Record × List DgramSend × List SendResult × Entry :=
  if e.peer.sess.any fun s => s.state = .established then
    let (records, io, e) := e.driveOffer P cfg env.udp now io
    let e := e.startPunch cfg env now
    let e := e.drivePunch env turn now
    let (asked, e) := e.driveRelay env now
    let (bound, e) := e.driveBind env now
    let e := e.driveSession P env now
    let (packets, e) := e.flushDgram env
    (records, asked ++ bound ++ packets, io, e)
  else ([], [], io, e)

end Entry

end UConnect.Node
