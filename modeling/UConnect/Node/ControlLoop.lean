/-
  Node/ControlLoop.lean --- the node's connection to the server.

  Source: src/api/node.cpp, `drive_control`, `on_control_down`,
  `send_conn_keepalive`, `send_register`, `on_control_message`, `request`,
  `request_empty`, `notify` and what `tick` sends, with the calls that wait for
  a reply.

  The connection is made of bytes here, and it goes down and comes up again.
  Node/Publish models the same functions on one connection, decoded and with the
  server at the other end; Node/Linked shows that as long as a connection lasts
  a run of this model is a run of that one.

  `drive_control` is taken in its parts: one call of the socket, one message,
  one look at the deadlines.  What a message does to the peers is not in this
  model.  All it can do to the connection is to queue messages, and these are
  steps of their own, which may come between any two parts.

  `queued`, `written`, `heard` and the counts below them are not in the code.
-/
import Mathlib.Data.List.Sort
import UConnect.Node.Book
import UConnect.Node.Publish
import UConnect.Server.RegistryView
import UConnect.Wire.Control
import UConnect.Wire.Framing

set_option autoImplicit false

namespace UConnect.Node

open UConnect.Foundation UConnect.Server UConnect.Wire

/-! ## Constants

The waiting times of the connection, and the room of one read. -/

/-- `kDiscoveryInterval`: how often a topic that connects by itself looks for
peers. -/
def kDiscoveryInterval : Duration := seconds 5
/-- `kReconnectMin`, the first wait and the one after a connection that came up. -/
def kReconnectMin : Duration := milliseconds 500
/-- `kReconnectMax`, which the doubled wait does not exceed. -/
def kReconnectMax : Duration := seconds 30
/-- The room `drive_control` gives `recv`. -/
def kControlChunk : Nat := 16 * 1024

/-! ## Data model

What `Node::Impl` keeps of the connection, of the requests on it and of the
topics. -/

/-- `Ctl`.  Replies are only taken while it is up, and requests only made then. -/
inductive Ctl where
  | down
  | connecting
  | up
  deriving DecidableEq

/-- `io::TcpSocket::State` of a socket that is connecting, as `drive_control`
finds it. -/
inductive SockState where
  | connecting
  | connected
  | failed
  deriving DecidableEq

namespace ControlLoop

/-- `Request`: the reply it waits for and what is to be done with it.  Of the
fields that name a purpose at most one is set; `loopOwned` says that no call
waits, and then the entry goes with its reply and has a deadline. -/
structure Request where
  expect : MsgType := 0
  done : Bool := false
  error : Nat := ErrorCode.none.code
  reply : Bytes := []
  deadline : Instant := 0
  registerFor : Option TopicId := none
  keepaliveFor : Option TopicId := none
  connKeepalive : Bool := false
  discoverFor : Option TopicId := none
  relayFor : Option (TopicId × DevId) := none
  dgramRelayFor : Option (TopicId × DevId) := none
  dgramEpoch : Nat := 0
  loopOwned : Bool := false
  deriving DecidableEq

/-- `Topic::Impl`, what the control connection reads and writes of it.  The rest
of it, which a publication is about, is in `TopicImpl`. -/
structure Topic extends TopicImpl where
  nextKeepalive : Instant := 0
  nextDiscovery : Instant := 0
  autoConnect : Bool := false
  deriving DecidableEq

end ControlLoop

/-- `Node::Impl`, its control connection; `keepalive` is the one of the
configuration. -/
structure ControlLoop where
  keepalive : Duration
  hostCands : List Candidate := []
  ctlState : Ctl := .down
  ctlReader : FrameReader := {}
  ctlOut : Bytes := []
  nextReconnect : Instant := 0
  nextCtlKeepalive : Instant := 0
  ctlConnectDeadline : Instant := 0
  reconnectBackoff : Duration := kReconnectMin
  srflx : Option Endpoint := none
  topics : AList (fun _ : TopicId => ControlLoop.Topic) := ∅
  /-- Topics `leave` took out of the table and has not unpublished yet. -/
  leaving : List ControlLoop.Topic := []
  requests : AList (fun _ : Nat => ControlLoop.Request) := ∅
  nextTxn : Nat
  /-- The messages that went to `ctl_out` since the connection was down last. -/
  queued : List Bytes := []
  /-- What the socket has taken of them. -/
  written : Bytes := []
  /-- The messages `on_control_message` was given. -/
  heard : List Bytes := []
  /-- The transactions given out. -/
  asked : Nat := 0
  /-- How often the connection has come up. -/
  ups : Nat := 0
  /-- How often it has gone down since, and when it did last. -/
  failures : Nat := 0
  lastDown : Instant := 0

namespace ControlLoop

/-! ## Sending

A message is queued for the socket whether or not it will take it.  Each one has
a number from one counter, and a request is filed under its number. -/

/-- A frame is appended to `ctl_out`.  `queued` remembers the message itself and
is not in the code; the two are compared in Node/ControlRuns. -/
def queue (c : ControlLoop) (message : Bytes) : ControlLoop :=
  { c with ctlOut := c.ctlOut ++ frame message, queued := c.queued ++ [message] }

/-- `alloc_txn`, once its value has been read.  The counter is a `uint32_t`, and
`asked` counts how often it was read, which is not in the code. -/
def allocTxn (c : ControlLoop) : ControlLoop :=
  { c with nextTxn := (c.nextTxn + 1) % 2 ^ 32, asked := c.asked + 1 }

/-- `request`: the message goes out under the next transaction, and the table
remembers what it is for.  `clock` is the time it reads, for the deadline of a
request that no call waits for. -/
def request (c : ControlLoop) (type expect : MsgType) (body : Writer → Writer) (r : Request)
    (flags : UInt8) (clock : Instant) : ControlLoop :=
  let txn := c.nextTxn
  let c := c.allocTxn.queue (message type txn body flags)
  let r := { r with
    expect := expect
    deadline := if r.loopOwned then clock + kControlTimeout else r.deadline }
  { c with requests := c.requests.insert txn r }

/-- `request_empty`: a request without a body, by a call that waits for it. -/
def requestEmpty (c : ControlLoop) (type expect : MsgType) : ControlLoop :=
  let txn := c.nextTxn
  let c := c.allocTxn.queue (emptyMessage type txn)
  { c with requests := c.requests.insert txn { expect := expect } }

/-- `notify`: a message nobody waits for.  It takes a number all the same. -/
def notify (c : ControlLoop) (type : MsgType) (body : Writer → Writer) : ControlLoop :=
  c.allocTxn.queue (message type c.nextTxn body)

/-- `topic_request_pending`: is there a keepalive or a lookup of the topic that
has had no reply? -/
def topicRequestPending (c : ControlLoop) (tid : TopicId) (expect : MsgType) : Bool :=
  c.requests.entries.any fun e =>
    !e.2.done && e.2.expect = expect &&
      (e.2.keepaliveFor = some tid || e.2.discoverFor = some tid)

/-- `topics[tid]`, written back after a reference into the map was written
through. -/
def setTopic (c : ControlLoop) (tid : TopicId) (ti : Topic) : ControlLoop :=
  { c with topics := c.topics.insert tid ti }

/-- The REGISTER of a topic, from what the last `publish` left in it and from
the host's candidates. -/
def registerMessage (c : ControlLoop) (tid : TopicId) (ti : Topic) : Register where
  id := tid
  mode := if ti.keyed then .keyed else .open
  unlisted := ti.unlisted
  hostCands := c.hostCands
  «meta» := ti.meta

/-- The flags of a REGISTER: whether the topic is to be left out of listings.
The body says the same once more. -/
def registerFlags (ti : Topic) : UInt8 := if ti.unlisted then kUnlisted else 0

/-- `send_register`, of the loop itself: the topic as it was published last,
with nobody waiting. -/
def sendRegister (c : ControlLoop) (tid : TopicId) (ti : Topic) (clock : Instant) : ControlLoop :=
  c.request .register .registerOk (Register.encode (c.registerMessage tid ti))
    { registerFor := some tid, loopOwned := true } (registerFlags ti) clock

/-- `send_conn_keepalive`: one at a time.  The next one is due by the clock
whether or not this one was sent. -/
def sendConnKeepalive (c : ControlLoop) (now : Instant) : ControlLoop :=
  let c := { c with nextCtlKeepalive := now + c.keepalive }
  if c.requests.entries.any fun e => e.2.connKeepalive && !e.2.done then c
  else
    let txn := c.nextTxn
    let c := c.allocTxn.queue (emptyMessage .keepalive txn)
    let r : Request := {
      expect := .keepaliveOk
      connKeepalive := true
      loopOwned := true
      deadline := now + kControlTimeout }
    { c with requests := c.requests.insert txn r }

/-! ## Going down

Whatever was in flight is over: requests of the loop are forgotten, and calls
that wait find theirs refused. -/

/-- `ti->reregistering = false`, where there is a topic.  A topic may have been
left meanwhile. -/
def clearReregistering (topics : AList (fun _ : TopicId => Topic)) (tid : TopicId) :
    AList (fun _ : TopicId => Topic) :=
  modifyAt topics tid fun ti => { ti with reregistering := false }

/-- What a request that goes with the connection leaves of the topics. -/
def abandonTopic (topics : AList (fun _ : TopicId => Topic)) (r : Request) :
    AList (fun _ : TopicId => Topic) :=
  match r.registerFor with
  | none => topics
  | some tid => if r.loopOwned then clearReregistering topics tid else topics

/-- A request goes with the connection: the loop forgets its own, and a caller
is told. -/
def abandon (requests : AList (fun _ : Nat => Request)) (e : Σ _ : Nat, Request) :
    AList (fun _ : Nat => Request) :=
  if e.2.loopOwned then requests.erase e.1
  else requests.insert e.1 { e.2 with done := true, error := ErrorCode.notFound.code }

/-- The next delay: twice the last one, up to the most it may be. -/
def nextBackoff (backoff : Duration) : Duration := min (backoff * 2) kReconnectMax

/-- `on_control_down`: what was queued is dropped, what was asked is abandoned,
and the next attempt waits twice as long as the last one. -/
def onControlDown (c : ControlLoop) (now : Instant) : ControlLoop :=
  { c with
    ctlState := .down
    ctlOut := []
    nextReconnect := now + c.reconnectBackoff
    reconnectBackoff := nextBackoff c.reconnectBackoff
    topics := (c.requests.entries.map Sigma.snd).foldl abandonTopic c.topics
    requests := c.requests.entries.foldl abandon c.requests
    queued := []
    written := []
    failures := c.failures + 1
    lastDown := now }

/-! ## Coming up

The first messages of a connection are a keepalive of its own and the
registration of every topic that was published. -/

/-- A published topic registers again: on a new connection, or when the server
does not know it any more. -/
def reregister (c : ControlLoop) (clock : Instant) (tid : TopicId) : ControlLoop :=
  match c.topics.lookup tid with
  | none => c
  | some ti =>
      if ti.published && !ti.reregistering then
        let ti := { ti with reregistering := true }
        (c.setTopic tid ti).sendRegister tid ti clock
      else c

/-- The order of `topics`, an ordered map in the source: the loops over the
topics take them by their ids. -/
def topicIds (c : ControlLoop) : List TopicId :=
  c.topics.keys.insertionSort fun a b => a.toList ≤ b.toList

/-- `drive_control`, while the connection is down; `opened` says that the socket
could be opened and began to connect. -/
def driveDown (c : ControlLoop) (now : Instant) (opened : Bool) : ControlLoop :=
  if c.ctlState ≠ .down || now < c.nextReconnect then c
  else if opened then
    { c with ctlState := .connecting, ctlConnectDeadline := now + kControlTimeout }
  else
    { c with
      nextReconnect := now + c.reconnectBackoff
      reconnectBackoff := nextBackoff c.reconnectBackoff
      failures := c.failures + 1
      lastDown := now }

/-- `drive_control`, while it is connecting.  With the socket connected the wait
is reset, the reader starts afresh and the first messages are queued. -/
def driveConnecting (c : ControlLoop) (now clock : Instant) (sock : SockState) : ControlLoop :=
  if c.ctlState ≠ .connecting then c
  else
    match sock with
    | .failed => c.onControlDown now
    | .connecting => if now ≥ c.ctlConnectDeadline then c.onControlDown now else c
    | .connected =>
        let c := { c with
          ctlState := .up
          reconnectBackoff := kReconnectMin
          ctlReader := {}
          ups := c.ups + 1
          failures := 0 }
        let c := c.sendConnKeepalive now
        c.topicIds.foldl (reregister · clock) c

/-! ## Replies

A reply is matched with its request by its number, and by the type it was to
have. -/

/-- Is a call of `publish` for the topic in flight whose request has not failed? -/
def publishing (c : ControlLoop) (tid : TopicId) : Bool :=
  c.requests.entries.any fun e =>
    !e.2.loopOwned && e.2.registerFor = some tid && e.2.error = ErrorCode.none.code

/-- A record that no topic holds is removed, unless a newer `publish` is in
flight: the two share one record. -/
def removeRecord (c : ControlLoop) (tid : TopicId) (dev : DevId) : ControlLoop :=
  if c.publishing tid then c else c.notify .unregister (DevRef.encode { devId := dev })

/-- A registration of the loop succeeded.  Where the topic has been left or
unpublished meanwhile, the record is one nobody wants, and it is given back. -/
def applyRegister (c : ControlLoop) (tid : TopicId) (ok : RegisterOk) (now : Instant) :
    ControlLoop :=
  let c := { c with srflx := some ok.srflx }
  match c.topics.lookup tid with
  | none => c.removeRecord tid ok.devId
  | some ti =>
      let ti := { ti with reregistering := false }
      if ti.published then
        c.setTopic tid { ti with self := some ok.devId, nextKeepalive := now + c.keepalive }
      else (c.setTopic tid ti).removeRecord tid ok.devId

/-- The reply to a request of the loop.  What it says of peers is for their
code. -/
def applyReply (c : ControlLoop) (req : Request) (r : Reader) (now : Instant) : ControlLoop :=
  if req.keepaliveFor.isSome || req.connKeepalive then
    match KeepaliveOk.decode.run r with
    | none => c
    | some (ok, _) => { c with srflx := some ok.srflx }
  else
    match req.registerFor with
    | none => c
    | some tid =>
        match RegisterOk.decode.run r with
        | none => c
        | some (ok, _) => c.applyRegister tid ok now

/-- A REGISTER was refused: its topic may register again, and nothing else is
known of it. -/
def refuseRegister (c : ControlLoop) (req : Request) : ControlLoop :=
  match req.registerFor with
  | none => c
  | some tid => { c with topics := clearReregistering c.topics tid }

/-- The topic whose record the server does not know any more, if it has to
register again. -/
def registersAgain (c : ControlLoop) (req : Request) (code : Nat) : Option TopicId :=
  req.keepaliveFor.filter fun tid =>
    (code = ErrorCode.notFound.code || code = ErrorCode.badAuth.code) &&
      (c.topics.lookup tid).any fun ti => ti.published && !ti.reregistering

/-- The `Error` half of `on_control_message`.  A refused keepalive whose record
the server does not know registers its topic anew; any other error is dropped
with a request of the loop, or stored for the call that waits. -/
def onError (c : ControlLoop) (txn : Nat) (req : Request) (code : Nat) (clock : Instant) :
    ControlLoop :=
  match c.registersAgain req code with
  | some tid => { c with requests := c.requests.erase txn }.reregister clock tid
  | none =>
      let c := c.refuseRegister req
      if req.loopOwned then { c with requests := c.requests.erase txn }
      else { c with requests := c.requests.insert txn { req with error := code, done := true } }

/-- `on_control_message`; an introduction and an offer are for the code of the
peers. -/
def onControlMessage (c : ControlLoop) (msg : Bytes) (now clock : Instant) : ControlLoop :=
  let c := { c with heard := c.heard ++ [msg] }
  match Header.decode { rest := msg } ctlVersion with
  | (none, _) => c
  | (some h, r) =>
      if h.type = .relayed || h.type = .relayOffer then c
      else
        match c.requests.lookup h.txnId with
        | none => c
        | some req =>
            if h.type = .error then
              let code := ((Error.decode.run r).map (·.1.code)).getD ErrorCode.badRequest.code
              c.onError h.txnId req code clock
            else if h.type ≠ req.expect then c
            else if req.loopOwned then
              let c := c.applyReply req r now
              { c with requests := c.requests.erase h.txnId }
            else
              { c with
                requests := c.requests.insert h.txnId { req with reply := msg, done := true } }

/-! ## Reading and writing

One call of the socket at a time, and one message of the reader. -/

/-- `drive_control` calls `recv`, which fails, would block (no bytes) or returns
some bytes.  In the source it loops until there are none; here each call is an
operation of its own. -/
def recv (c : ControlLoop) (now : Instant) (got : Option Bytes) : ControlLoop :=
  if c.ctlState ≠ .up then c
  else
    match got with
    | none => c.onControlDown now
    | some bytes =>
        let bytes := bytes.take kControlChunk
        if bytes.isEmpty then c
        else
          let fed := c.ctlReader.feed bytes
          if fed.1 then { c with ctlReader := fed.2 } else c.onControlDown now

/-- `drive_control` takes the next message of the reader, if all of it is there. -/
def takeMessage (c : ControlLoop) (now clock : Instant) : ControlLoop :=
  if c.ctlState ≠ .up then c
  else
    let taken := c.ctlReader.next
    let c := { c with ctlReader := taken.2 }
    match taken.1 with
    | none => c
    | some msg => c.onControlMessage msg now clock

/-- Has a request of the loop waited too long? A caller has a deadline of its
own and is not looked at. -/
def overdue (c : ControlLoop) (now : Instant) : Bool :=
  c.requests.entries.any fun e => e.2.loopOwned && !e.2.done && decide (now ≥ e.2.deadline)

/-- `drive_control` looks at the deadlines: one request of the loop that is
overdue ends the connection. -/
def checkDeadlines (c : ControlLoop) (now : Instant) : ControlLoop :=
  if c.ctlState = .up && c.overdue now then c.onControlDown now else c

/-- `drive_control` calls `send`, which fails or takes the first `sent` bytes.
`written` remembers them and is not in the code. -/
def send (c : ControlLoop) (now : Instant) (sent : Option Nat) : ControlLoop :=
  if c.ctlState ≠ .up || c.ctlOut.isEmpty then c
  else
    match sent with
    | none => c.onControlDown now
    | some n => { c with ctlOut := c.ctlOut.drop n, written := c.written ++ c.ctlOut.take n }

/-! ## What `tick` sends

Keepalives of the connection and of the records, and lookups of the topics that
connect by themselves. -/

/-- Is a topic published that has a record to keep? -/
def anyPublished (c : ControlLoop) : Bool :=
  c.topics.entries.any fun e => e.2.published && e.2.self.isSome

/-- The keepalive of the connection, when it is due.  Where a topic is published
its own keepalive does as well, and this one only moves on. -/
def connKeepalive (c : ControlLoop) (now : Instant) : ControlLoop :=
  if c.ctlState ≠ .up || now < c.nextCtlKeepalive then c
  else if c.anyPublished then { c with nextCtlKeepalive := now + c.keepalive }
  else c.sendConnKeepalive now

/-- The keepalive of a topic, when it is due, and none while another request of
the same kind is pending. -/
def topicKeepalive (c : ControlLoop) (tid : TopicId) (now clock : Instant) : ControlLoop :=
  match c.topics.lookup tid with
  | none => c
  | some ti =>
      match ti.self with
      | none => c
      | some dev =>
          if !ti.published || c.ctlState ≠ .up || now < ti.nextKeepalive ||
              c.topicRequestPending tid .keepaliveOk then c
          else
            (c.request .keepalive .keepaliveOk (DevRef.encode { devId := dev })
              { keepaliveFor := some tid, loopOwned := true } 0 clock).setTopic tid
              { ti with nextKeepalive := now + c.keepalive }

/-- The LOOKUP of a topic that connects by itself; `full` says that it has
`max_peers`. -/
def discover (c : ControlLoop) (tid : TopicId) (full : Bool) (now clock : Instant) : ControlLoop :=
  match c.topics.lookup tid with
  | none => c
  | some ti =>
      if !ti.autoConnect || !ti.published || ti.self.isNone || c.ctlState ≠ .up ||
          now < ti.nextDiscovery then c
      else
        let c := c.setTopic tid { ti with nextDiscovery := now + kDiscoveryInterval }
        if full || c.topicRequestPending tid .lookupOk then c
        else
          c.request .lookup .lookupOk (Lookup.encode { id := tid, max := kLookupDefault })
            { discoverFor := some tid, loopOwned := true } 0 clock

/-- `request_relay`, and what `drive_dgram` asks for; `epoch` is that of a
datagram channel. -/
def requestRelay (c : ControlLoop) (tid : TopicId) (dev : DevId) (epoch : Option Nat)
    (clock : Instant) : ControlLoop :=
  match (c.topics.lookup tid).bind (·.self) with
  | none => c
  | some self =>
      if c.ctlState ≠ .up then c
      else
        match epoch with
        | none =>
            c.request .relayAlloc .relayAllocOk
              (RelayAlloc.encode { fromDev := self, peerDev := dev, kind := .tcp })
              { relayFor := some (tid, dev), loopOwned := true } 0 clock
        | some epoch =>
            c.request .relayAlloc .relayAllocOk
              (RelayAlloc.encode { fromDev := self, peerDev := dev, kind := .udp })
              { dgramRelayFor := some (tid, dev), dgramEpoch := epoch, loopOwned := true } 0 clock

/-! ## Calls

What the application can make the connection do.  A call that waits does so
outside the lock, so each is cut where it waits. -/

/-- `join`: a topic, if it is not there already.  Nothing is sent. -/
def join (c : ControlLoop) (tid : TopicId) (keyed : Bool) : ControlLoop :=
  match c.topics.lookup tid with
  | some _ => c
  | none => c.setTopic tid { keyed := keyed }

/-- `set_auto_connect`.  The flag is only stored; the next tick sees it. -/
def setAutoConnect (c : ControlLoop) (tid : TopicId) (on : Bool) : ControlLoop :=
  { c with topics := modifyAt c.topics tid fun ti => { ti with autoConnect := on } }

/-- `publish` up to its wait.  The topic remembers what was asked before the
reply comes, so that a connection that comes up later registers it. -/
def publish (c : ControlLoop) (tid : TopicId) («meta» : Bytes) (unlisted : Bool)
    (clock : Instant) : ControlLoop :=
  match c.topics.lookup tid with
  | none => c
  | some ti =>
      let ti := { ti with «meta» := «meta», unlisted := unlisted }
      (c.setTopic tid ti).request .register .registerOk
        (Register.encode (c.registerMessage tid ti)) { registerFor := some tid } (registerFlags ti)
        clock

/-- The device id and the address of a stored reply to a REGISTER. -/
def registered (reply : Bytes) : Option RegisterOk :=
  match Header.decode { rest := reply } ctlVersion with
  | (none, _) => none
  | (some _, r) => (RegisterOk.decode.run r).map (·.1)

/-- A call of `publish` ends; `finished` says that its request has been answered
in time.  What has not been answered at all is left to the loop. -/
def finishPublish (c : ControlLoop) (txn : Nat) (tid : TopicId) (req : Request) (finished : Bool)
    (clock : Instant) : ControlLoop :=
  let ok := if finished && req.error = ErrorCode.none.code then registered req.reply else none
  let c := { c with
    requests :=
      if !finished && !req.done then
        c.requests.insert txn { req with loopOwned := true, deadline := clock + kControlTimeout }
      else c.requests.erase txn }
  match ok with
  | none => c
  | some ok =>
      match c.topics.lookup tid with
      | none => c
      | some ti =>
          { c.setTopic tid { ti with
              self := some ok.devId
              published := true
              reregistering := false
              nextKeepalive := clock + c.keepalive } with srflx := some ok.srflx }

/-- The waiting `publish` of request `txn` looks again; `expired` says that its
deadline has passed. -/
def wake (c : ControlLoop) (txn : Nat) (expired : Bool) (clock : Instant) : ControlLoop :=
  match c.requests.lookup txn with
  | none => c
  | some req =>
      match req.registerFor with
      | none => c
      | some tid =>
          let finished := !expired && req.done
          if req.loopOwned || (!expired && !finished) then c
          else c.finishPublish txn tid req finished clock

/-- Any call but `publish` takes its request back, answered or not: what it
returns to its caller is left out. -/
def takeBack (c : ControlLoop) (txn : Nat) : ControlLoop :=
  match c.requests.lookup txn with
  | none => c
  | some req =>
      if req.loopOwned || req.registerFor.isSome then c
      else { c with requests := c.requests.erase txn }

/-- `unpublish`, of a topic's record wherever it is: a notice, if there is a
record and the connection is up. -/
def unregisterSelf (c : ControlLoop) (ti : Topic) : ControlLoop :=
  match ti.self with
  | none => c
  | some dev =>
      if c.ctlState = .up then c.notify .unregister (DevRef.encode { devId := dev }) else c

/-- `unpublish`.  Nothing waits for the reply; the topic has no record from now
on. -/
def unpublish (c : ControlLoop) (tid : TopicId) : ControlLoop :=
  match c.topics.lookup tid with
  | none => c
  | some ti => (c.unregisterSelf ti).setTopic tid { ti with published := false, self := none }

/-- Is a call of `publish` active for the topic? Its request is in the table for
as long as the call runs. -/
def publishActive (c : ControlLoop) (tid : TopicId) : Bool :=
  c.requests.entries.any fun e => !e.2.loopOwned && e.2.registerFor = some tid

/-- `leave`, its first half: the topic leaves the table.  A reference to a topic
is good until `leave`, so no call on it is active. -/
def leave (c : ControlLoop) (tid : TopicId) : ControlLoop :=
  match c.topics.lookup tid with
  | none => c
  | some ti =>
      if c.publishActive tid then c
      else { c with topics := c.topics.erase tid, leaving := c.leaving ++ [ti] }

/-- `leave`, its second half, for one of the topics that wait for it.  Between
the halves the lock is free, and the topic is in no table. -/
def leaveRest (c : ControlLoop) (i : Nat) : ControlLoop :=
  match c.leaving[i]? with
  | none => c
  | some ti => { c with leaving := c.leaving.eraseIdx i }.unregisterSelf ti

/-! ## Runs

The parts above as steps, in any order in which the loop and the application's
threads could take the lock. -/

/-- The types of messages that calls send which are about neither a record nor a
keepalive of the node; a header of such a type is read back. -/
def Asked (type : MsgType) : Prop :=
  classify type ≠ .unknown ∧ type ≠ .register ∧ type ≠ .keepalive ∧ type ≠ .unregister

instance (type : MsgType) : Decidable (Asked type) :=
  inferInstanceAs (Decidable
    (classify type ≠ .unknown ∧ type ≠ .register ∧ type ≠ .keepalive ∧ type ≠ .unregister))

/-- What such a call sends; `body` is what its encoder writes, which fits a
frame. -/
structure Question where
  type : MsgType
  body : Bytes := []
  flags : UInt8 := 0
  asked : Asked type
  fits : Header.kSize + body.length ≤ kMaxFrame

/-- What happens next, each operation one holding of the node's lock.
`drive_control` and `tick` are taken apart into their socket calls, messages and
timers, and these may come in any order and number, so that the source's order
is one of the runs. -/
inductive Op where
  | driveDown (now : Instant) (opened : Bool)
  | driveConnecting (now clock : Instant) (sock : SockState)
  | recv (now : Instant) (got : Option Bytes)
  | takeMessage (now clock : Instant)
  | checkDeadlines (now : Instant)
  | send (now : Instant) (sent : Option Nat)
  | connKeepalive (now : Instant)
  | topicKeepalive (tid : TopicId) (now clock : Instant)
  | discover (tid : TopicId) (full : Bool) (now clock : Instant)
  | requestRelay (tid : TopicId) (dev : DevId) (epoch : Option Nat) (clock : Instant)
  /-- A message that expects no reply. -/
  | notify (q : Question)
  | join (tid : TopicId) (keyed : Bool)
  | setAutoConnect (tid : TopicId) (on : Bool)
  | publish (tid : TopicId) («meta» : Bytes) (unlisted : Bool) (clock : Instant)
  | wake (txn : Nat) (expired : Bool) (clock : Instant)
  /-- A call that asks for something and waits. -/
  | ask (q : Question) (expect : MsgType) (clock : Instant)
  | askEmpty (type expect : MsgType) (asked : Asked type)
  | takeBack (txn : Nat)
  | unpublish (tid : TopicId)
  | leave (tid : TopicId)
  | leaveRest (i : Nat)

/-- One step.  The messages of a call arrive as a `Question`, a type with a body
that the source encodes for it. -/
def step (c : ControlLoop) : Op → ControlLoop
  | .driveDown now opened => c.driveDown now opened
  | .driveConnecting now clock sock => c.driveConnecting now clock sock
  | .recv now got => c.recv now got
  | .takeMessage now clock => c.takeMessage now clock
  | .checkDeadlines now => c.checkDeadlines now
  | .send now sent => c.send now sent
  | .connKeepalive now => c.connKeepalive now
  | .topicKeepalive tid now clock => c.topicKeepalive tid now clock
  | .discover tid full now clock => c.discover tid full now clock
  | .requestRelay tid dev epoch clock => c.requestRelay tid dev epoch clock
  | .notify q => c.notify q.type (·.bytes q.body)
  | .join tid keyed => c.join tid keyed
  | .setAutoConnect tid on => c.setAutoConnect tid on
  | .publish tid «meta» unlisted clock => c.publish tid «meta» unlisted clock
  | .wake txn expired clock => c.wake txn expired clock
  | .ask q expect clock => c.request q.type expect (·.bytes q.body) {} q.flags clock
  | .askEmpty type expect _ => c.requestEmpty type expect
  | .takeBack txn => c.takeBack txn
  | .unpublish tid => c.unpublish tid
  | .leave tid => c.leave tid
  | .leaveRest i => c.leaveRest i

/-- A node that has just been made.  The constructor draws the first transaction
at random, so it is a parameter here; nothing is proved of one first transaction
only. -/
def start (keepalive : Duration) (hostCands : List Candidate) (firstTxn : UInt32) : ControlLoop :=
  { keepalive := keepalive, hostCands := hostCands, nextTxn := firstTxn.toNat }

end ControlLoop

end UConnect.Node
