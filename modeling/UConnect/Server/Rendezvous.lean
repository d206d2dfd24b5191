/-
  Server/Rendezvous.lean --- the server's connections, its loop and its workers.

  Source: server/rendezvous.hpp and server/rendezvous.cpp.

  A connection is held by the loop, by a worker's inbox or by a worker; `held`
  lists them all with their place, so that the map `conns_` is the part of it
  that is the loop's.  What a socket returns is an input, and each connection
  keeps what has passed through its socket (`received`, `written`); a closed one
  is kept in `closed` for the same reason.

  A round of `poll_once` or of `worker_loop` is a sequence of `Action`s: one
  accepted connection, one call of `recv`, one frame, one connection flushed,
  one turn of a reaping loop.  An action makes one call under each lock at most
  and otherwise touches what its own thread holds, so every interleaving of
  rounds is a run of actions.  Where the loop makes two calls under one lock in
  a row, `doing` keeps what is left to do and the loop does nothing else before
  it.  Otherwise the runs here take the actions in any order.
-/
import UConnect.Foundation.Run
import UConnect.Server.Config
import UConnect.Server.ControlService
import UConnect.Wire.Framing

set_option autoImplicit false

namespace UConnect.Server

open UConnect UConnect.Foundation UConnect.Crypto UConnect.Wire

namespace Rendezvous

/-- `kMaxControlBacklog`: what a client that does not read may have waiting for
it. -/
def kMaxControlBacklog : Nat := 1024 * 1024
/-- `kReadChunk`, the room of one read. -/
def kReadChunk : Nat := 64 * 1024

/-- `Rendezvous::Mode`: the first frame decides between a control connection and
a relay's leg, and a leg is spliced once the other has come. -/
inductive Mode where
  | new
  | control
  | relayWaiting
  | splice
  deriving DecidableEq

/-- `Rendezvous::Conn`.  `readDone` says that the socket has ended and what is
buffered may still go out; `relayEarly` is what a leg sent before its partner
was there. -/
structure Conn where
  key : ConnKey
  peer : Address
  reader : FrameReader := {}
  relayEarly : Bytes := []
  out : Bytes := []
  mode : Mode := .new
  relayId : RelayId := 0
  /-- `none` for -1. -/
  relaySide : Option (Fin 2) := none
  partner : ConnKey := 0
  opened : Instant
  lastRx : Instant
  readDone : Bool := false
  dead : Bool := false
  /-- Everything its socket has returned. -/
  received : Bytes := []
  /-- Everything its socket has taken. -/
  written : Bytes := []
  /-- The frame it joined a relay with. -/
  joined : Bytes := []

/-- `kill`: the connection is marked and nothing else.  It stays in its map
until the reaping that ends the round, and until then it still has its place in
every index. -/
def Conn.kill (c : Conn) : Conn := { c with dead := true }

/-- Who holds a connection: the loop's map, the inbox of a worker, or a worker's
map. -/
inductive Place where
  | loop
  | inbox (i : Nat)
  | worker (i : Nat)
  deriving DecidableEq

/-- A connection and its place.  A reference into a map is the key of the
connection here, and finding it in the place is the look-up. -/
structure Held where
  place : Place
  conn : Conn

/-- A thread of the server.  The first one accepts, runs the control connections
and makes the pairs; the others have spliced pairs only. -/
inductive Thread where
  | loop
  | worker (i : Nat)
  deriving DecidableEq

/-- The map of a thread. -/
def Thread.place : Thread → Place
  | .loop => .loop
  | .worker i => .worker i

/-- What the loop has left to do behind a call under the lock of the service. -/
inductive Doing where
  | nothing
  /-- `on_frame` has opened the connection; its first message is next. -/
  | opened (key : ConnKey) (msg : Bytes)
  /-- `on_relay_join` has made the pair; what `src` sent early is to be charged,
  and with `again` what `dst` sent is next. -/
  | passing (src dst : ConnKey) (id : RelayId) (again : Bool)
  deriving DecidableEq

end Rendezvous

/-- `Rendezvous`: what its threads share and what each of them holds.  In the
code each thread has a map of its own and the connections move between them;
here one list has them all, with the place of each. -/
structure Rendezvous where
  cfg : RendezvousConfig := {}
  service : ControlService
  held : List Rendezvous.Held := []
  closed : List Rendezvous.Conn := []
  perIp : AList (fun _ : Vector UInt8 16 => Nat) := ∅
  waiting : Fin 2 → AList (fun _ : RelayId => ConnKey) := fun _ => ∅
  nextKey : ConnKey := 1
  spliced : List (ConnKey × ConnKey) := []
  /-- `count` of each worker. -/
  counts : Nat → Nat := fun _ => 0
  nextWorker : Nat := 0
  doing : Rendezvous.Doing := .nothing

namespace Rendezvous

variable (P : Primitives)

/-! ## The maps

Looking up, changing and moving a connection.  A change in a place where the
connection is not changes nothing, as `find` on a map that does not have it. -/

/-- `workers_.size()`: the first thread runs the loop. -/
def workers (s : Rendezvous) : Nat := s.cfg.threads - 1

/-- `find` in the map of a place. -/
def find (s : Rendezvous) (p : Place) (key : ConnKey) : Option Conn :=
  (s.held.find? fun h => h.place = p && h.conn.key = key).map Held.conn

/-- A connection written through its reference into the map of its place.
Nothing else of the server changes. -/
def modify (s : Rendezvous) (p : Place) (key : ConnKey) (f : Conn → Conn) : Rendezvous :=
  { s with held := s.held.map fun h =>
      if h.place = p ∧ h.conn.key = key then { h with conn := f h.conn } else h }

/-- `kill` of a connection in a map. -/
def killAt (s : Rendezvous) (p : Place) (key : ConnKey) : Rendezvous := s.modify p key Conn.kill

/-- `open_connections`: the loop's own, and what each worker has said it holds. -/
def openConnections (s : Rendezvous) : Nat :=
  (s.held.countP fun h => h.place = .loop) + ((List.range s.workers).map s.counts).sum

/-! ## Accepting

A connection is taken if neither limit is reached, and its address is counted
from then on. -/

/-- The address a connection is counted under. -/
def Conn.ip (c : Conn) : Vector UInt8 16 := c.peer.val.ip.bytes

/-- One turn of `accept_all`; `none` is a socket that has no remote address.
`next_key_` is a `uint64_t`: no key is given out twice because fewer than 2^64
connections are accepted. -/
def accept (s : Rendezvous) (peer : Option Address) (now : Instant) : Rendezvous :=
  match peer with
  | none => s
  | some peer =>
      let ip := peer.val.ip.bytes
      let n := (s.perIp.lookup ip).getD 0
      if s.openConnections ≥ s.cfg.maxConnections ∨ n ≥ s.cfg.maxConnectionsPerIp then
        if n = 0 then { s with perIp := s.perIp.erase ip } else s
      else
        { s with
          perIp := s.perIp.insert ip (n + 1)
          nextKey := s.nextKey + 1
          held := { place := .loop
                    conn := { key := s.nextKey, peer := peer, opened := now, lastRx := now } } ::
            s.held }

/-! ## Joining a relay

The first frame of a leg names its side.  The bytes behind it are raw already,
and are kept until the other leg is there. -/

/-- `charge`: the one thing a splice does under the lock of the service.  It
says whether the bytes may pass. -/
def charge (s : Rendezvous) (id : RelayId) (bytes : Nat) (now : Instant) : Bool × Rendezvous :=
  ((s.service.registry.relayCharge id bytes now).1,
    { s with service := { s.service with
        registry := (s.service.registry.relayCharge id bytes now).2 } })

/-- Who `msg` joins as: the relay and the side its token opens, if it is a join
and there is such a side. -/
def joinSide (s : Rendezvous) (msg : Bytes) : Option (RelayId × Fin 2) :=
  match Header.decode { rest := msg } ctlVersion with
  | (none, _) => none
  | (some _, r) =>
      (RelayJoin.decode.run r).bind fun (j, _) =>
        (s.service.registry.relaySide j.relayId j.token (some .tcp)).map fun side =>
          (j.relayId, side)

/-- The frame that tells a leg it is spliced.  Everything behind it is the other
leg's bytes. -/
def joinOk : Bytes := frame (emptyMessage .relayJoinOk 0)

/-- A waiting leg is taken off the list, whether it is spliced, replaced or
closed. -/
def unwait (s : Rendezvous) (side : Fin 2) (id : RelayId) : Rendezvous :=
  { s with waiting := Function.update s.waiting side ((s.waiting side).erase id) }

/-- A leg that rejoins replaces its earlier attempt. -/
def replaceEarlier (s : Rendezvous) (side : Fin 2) (id : RelayId) : Rendezvous :=
  match (s.waiting side).lookup id with
  | none => s
  | some old => (s.killAt .loop old).unwait side id

/-- A connection becomes a leg that waits for the other side. -/
def Conn.toWaiting (c : Conn) : Conn := { c with mode := .relayWaiting }

/-- The leg waits for the other one, under its relay and side, where the other
one will look. -/
def wait (s : Rendezvous) (key : ConnKey) (side : Fin 2) (id : RelayId) : Rendezvous :=
  let s := s.modify .loop key Conn.toWaiting
  { s with waiting := Function.update s.waiting side ((s.waiting side).insert id key) }

/-- A connection becomes a leg of a pair, and is told so before anything of the
other leg. -/
def Conn.toSplice (c : Conn) (partner : ConnKey) : Conn :=
  { c with mode := .splice, partner := partner, out := c.out ++ joinOk }

/-- Both legs are there: each is told, and each is to get what the other sent
early. -/
def splice (s : Rendezvous) (key other : ConnKey) (id : RelayId) : Rendezvous :=
  let s := s.modify .loop key fun c => c.toSplice other
  let s := s.modify .loop other fun p => p.toSplice key
  { s with doing := .passing key other id true }

/-- What `src` sent early is with `dst`.  Behind the second of the two the pair
is ready for a worker, if there are any. -/
def passed (s : Rendezvous) (src dst : ConnKey) (id : RelayId) (again : Bool) : Rendezvous :=
  if again then { s with doing := .passing dst src id false }
  else
    { s with
      doing := .nothing
      spliced := if s.workers = 0 then s.spliced else s.spliced ++ [(dst, src)] }

/-- One turn of the loop at the end of `on_relay_join`.  What a leg sent while
it waited is charged like anything else, and both legs end where it is refused. -/
def passEarly (s : Rendezvous) (src dst : ConnKey) (id : RelayId) (again : Bool) (now : Instant) :
    Rendezvous :=
  match s.find .loop src with
  | none => { s with doing := .nothing }
  | some c =>
      let s := s.modify .loop src fun c => { c with relayEarly := [] }
      if c.relayEarly.isEmpty then s.passed src dst id again
      else
        let (ok, s) := s.charge id c.relayEarly.length now
        if ok then
          (s.modify .loop dst fun d => { d with out := d.out ++ c.relayEarly }).passed src dst id again
        else { (s.killAt .loop src).killAt .loop dst with doing := .nothing }

/-- `on_relay_join`, once the leg has its side: it waits, or is spliced with the
one that waited. -/
def pair (s : Rendezvous) (key : ConnKey) (side : Fin 2) (id : RelayId) : Rendezvous :=
  match (s.waiting (1 - side)).lookup id with
  | none => s.wait key side id
  | some other =>
      let s := s.unwait (1 - side) id
      match s.find .loop other with
      | none => s.wait key side id
      | some p => if p.dead then s.wait key side id else s.splice key other id

/-- What follows the join is raw input: the reader's bytes behind it are the
first of the relay's. -/
def Conn.toRaw (c : Conn) (early msg : Bytes) : Conn :=
  { c with relayEarly := early, reader := {}, joined := lengthPrefixed msg }

/-- The side a leg has joined as. -/
def Conn.takeSide (c : Conn) (id : RelayId) (side : Fin 2) : Conn :=
  { c with relayId := id, relaySide := some side }

/-- `on_relay_join`, up to the early bytes.  A token that is not of the relay,
and early bytes over the splice's buffer, end the connection. -/
def onRelayJoin (s : Rendezvous) (c : Conn) (msg : Bytes) : Rendezvous :=
  match s.joinSide msg with
  | none => s.killAt .loop c.key
  | some (id, side) =>
      let early := c.reader.takeRest.1
      let s := s.modify .loop c.key fun c => c.toRaw early msg
      if early.length > s.cfg.spliceBuffer then s.killAt .loop c.key
      else
        let s := s.modify .loop c.key fun c => c.takeSide id side
        (s.replaceEarlier side id).pair c.key side id

/-! ## Frames

What a whole message does, and where the replies go. -/

/-- `deliver`: to the connection the frame is for, if it is still there; one
that does not read is cut off. -/
def deliver (s : Rendezvous) (f : Framed) : Rendezvous :=
  match s.find .loop f.dst with
  | none => s
  | some c =>
      if c.dead then s
      else if c.out.length + f.bytes.length > kMaxControlBacklog then s.killAt .loop f.dst
      else s.modify .loop f.dst fun c => { c with out := c.out ++ f.bytes }

/-- What the service is told about a message: the verdict of the bucket, the
random draws. -/
structure Verdict where
  admitted : Bool
  draws : Draws

/-- A message of a control connection goes to the service.  Its frames are
delivered, and a violation of the protocol kills the connection. -/
def onControl (s : Rendezvous) (key : ConnKey) (msg : Bytes) (now : Instant) (v : Verdict) :
    Rendezvous :=
  match s.service.onMessage P key msg now v.admitted v.draws with
  | none => s
  | some (res, service) =>
      let s := res.out.foldl deliver { s with service := service }
      if res.close then s.killAt .loop key else s

/-- The first frame that is no `RelayJoin` makes a connection a control
connection. -/
def openControl (s : Rendezvous) (c : Conn) (msg : Bytes) : Rendezvous :=
  let s := s.modify .loop c.key fun c => { c with mode := .control }
  { s with service := s.service.onOpen c.key c.peer, doing := .opened c.key msg }

/-- `on_frame`, up to the second call under the lock of the service.  The first
frame of a connection decides what it is. -/
def onFrame (s : Rendezvous) (c : Conn) (msg : Bytes) (now : Instant) (v : Verdict) : Rendezvous :=
  match c.mode with
  | .new => if peekType msg = some .relayJoin then s.onRelayJoin c msg else s.openControl c msg
  | .control => s.onControl P c.key msg now v
  | .relayWaiting => s
  | .splice => s

/-- The loop goes on with what it has left to do.  Until it is done the loop
does nothing else, while the workers and their sockets may. -/
def goOn (s : Rendezvous) (now : Instant) (v : Verdict) : Rendezvous :=
  match s.doing with
  | .nothing => s
  | .opened key msg => { s with doing := .nothing }.onControl P key msg now v
  | .passing src dst id again => s.passEarly src dst id again now

/-! ## Reading

One call of the socket.  A leg whose partner is gone is read for nobody, and
goes once its own buffer is empty. -/

/-- A connection that takes no more frames: its bytes belong to the relay. -/
def Conn.raw (c : Conn) : Bool := c.mode = .relayWaiting || c.mode = .splice

/-- One turn of the inner loop of `read_from`: the next frame the reader has.  A
reader that has none and is broken ends the connection. -/
def takeFrame (s : Rendezvous) (key : ConnKey) (now : Instant) (v : Verdict) : Rendezvous :=
  match s.find .loop key with
  | none => s
  | some c =>
      if c.dead || c.raw then s
      else
        let taken := c.reader.next
        let s := s.modify .loop key fun c => { c with reader := taken.2 }
        match taken.1 with
        | none => if taken.2.broken then s.killAt .loop key else s
        | some msg => s.onFrame P { c with reader := taken.2 } msg now v

/-- What a socket returns: `none` is the end of the stream or an error, no bytes
is would-block, and no call returns more than it was given room for. -/
abbrev Recv := Option Bytes

/-- One turn of the outer loop of `read_from`: what was read goes to the frame
reader.  An error of the socket and a reader that breaks both kill the
connection. -/
def readChunk (s : Rendezvous) (c : Conn) (got : Recv) (now : Instant) : Rendezvous :=
  match got with
  | none => s.killAt .loop c.key
  | some bytes =>
      let bytes := bytes.take kReadChunk
      if bytes.isEmpty then s
      else
        let fed := c.reader.feed bytes
        let s := s.modify .loop c.key fun c =>
          { c with received := c.received ++ bytes, lastRx := now, reader := fed.2 }
        if fed.1 then s else s.killAt .loop c.key

/-- A leg that waits: its bytes are kept, up to the limit, and one more is
enough to know that they are too many. -/
def readEarly (s : Rendezvous) (c : Conn) (got : Recv) : Rendezvous :=
  let room := s.cfg.spliceBuffer - c.relayEarly.length
  match got with
  | none => s.killAt .loop c.key
  | some bytes =>
      let bytes := bytes.take (min room (kReadChunk - 1) + 1)
      let s := s.modify .loop c.key fun c => { c with received := c.received ++ bytes }
      if bytes.length > room then s.killAt .loop c.key
      else s.modify .loop c.key fun c => { c with relayEarly := c.relayEarly ++ bytes }

/-- A spliced leg without its partner: what it sends is dropped, and it goes
once it has been sent everything. -/
def drain (s : Rendezvous) (p : Place) (c : Conn) (got : Recv) : Rendezvous :=
  let s :=
    match got with
    | none => s.modify p c.key fun c => { c with readDone := true }
    | some bytes => s.modify p c.key fun c => { c with received := c.received ++ bytes.take kReadChunk }
  if c.out.isEmpty then s.killAt p c.key else s

/-- `splice_read`: what the partner's buffer has room for, charged to the
binding.  A budget that is spent ends both legs. -/
def spliceRead (s : Rendezvous) (p : Place) (c : Conn) (got : Recv) (now : Instant) : Rendezvous :=
  match s.find p c.partner with
  | none => s.drain p c got
  | some partner =>
      if partner.dead then s.drain p c got
      else
        let room := s.cfg.spliceBuffer - partner.out.length
        if room = 0 then s
        else
          match got with
          | none => s.killAt p c.key
          | some bytes =>
              let bytes := bytes.take (min room kReadChunk)
              if bytes.isEmpty then s
              else
                let s := s.modify p c.key fun c =>
                  { c with received := c.received ++ bytes, lastRx := now }
                let (ok, s) := s.charge c.relayId bytes.length now
                if !ok then (s.killAt p c.key).killAt p partner.key
                else s.modify p partner.key fun d => { d with out := d.out ++ bytes }

/-- `read_from`, one call of the socket.  The source calls until the socket
would block; each further call is an action of its own. -/
def readFrom (s : Rendezvous) (key : ConnKey) (got : Recv) (now : Instant) : Rendezvous :=
  match s.find .loop key with
  | none => s
  | some c =>
      if c.dead then s
      else
        match c.mode with
        | .splice => s.spliceRead .loop c got now
        | .relayWaiting => s.readEarly c got
        | .new => s.readChunk c got now
        | .control => s.readChunk c got now

/-- A worker reads a leg.  That the socket is ready is not modelled: any leg may
be read at any time, with whatever the socket returns. -/
def workerRead (s : Rendezvous) (i : Nat) (key : ConnKey) (got : Recv) (now : Instant) :
    Rendezvous :=
  match s.find (.worker i) key with
  | none => s
  | some c => if c.dead then s else s.spliceRead (.worker i) c got now

/-! ## Writing

A flush calls the socket until it takes nothing more; an error ends the
connection. -/

/-- What a socket takes: `none` is an error, zero is would-block. -/
abbrev Send := Option Nat

/-- `flush`, at most one call of the socket for each element of `sends`. -/
def flush (p : Place) (key : ConnKey) : List Send → Rendezvous → Rendezvous
  | [], s => s
  | sent :: sends, s =>
      match s.find p key with
      | none => s
      | some c =>
          if c.dead || c.out.isEmpty then s
          else
            match sent with
            | none => s.killAt p key
            | some n =>
                if n = 0 then s
                else
                  flush p key sends (s.modify p key fun c =>
                    { c with out := c.out.drop n, written := c.written ++ c.out.take n })

/-! ## Reaping

Dead connections leave their map.  What they held elsewhere, an address' count,
a side that waits or a record, goes with them. -/

/-- `splice_idle`: neither direction has moved for `relay_idle_timeout`.  A leg
whose partner is no longer in the map is judged by itself. -/
def spliceIdle (s : Rendezvous) (p : Place) (c : Conn) (now : Instant) : Bool :=
  c.mode = .splice && decide (now - c.lastRx > s.cfg.relayIdleTimeout) &&
    match s.find p c.partner with
    | none => true
    | some q => decide (now - q.lastRx > s.cfg.relayIdleTimeout)

/-- What ends a connection in the first loop of `reap`; a worker has legs only. -/
def expired (s : Rendezvous) (t : Thread) (c : Conn) (now : Instant) : Bool :=
  match t with
  | .loop =>
      (c.mode = .new && decide (now - c.opened > s.cfg.firstFrameTimeout)) ||
        (c.mode = .control && decide (now - c.lastRx > s.cfg.idleTimeout)) ||
        (c.mode = .relayWaiting && decide (now - c.opened > s.cfg.relayJoinTimeout)) ||
        s.spliceIdle .loop c now
  | .worker i => s.spliceIdle (.worker i) c now

/-- One turn of the first loop of `reap`, for one connection: each kind of
connection has its own time. -/
def expire (s : Rendezvous) (t : Thread) (key : ConnKey) (now : Instant) : Rendezvous :=
  match s.find t.place key with
  | none => s
  | some c => if !c.dead && s.expired t c now then s.killAt t.place key else s

/-- One turn of the second loop: the survivor of a dead leg goes once it has
everything. -/
def follow (s : Rendezvous) (t : Thread) (key : ConnKey) : Rendezvous :=
  match s.find t.place key with
  | none => s
  | some c =>
      if !c.dead || (t = .loop && c.mode ≠ .splice) then s
      else
        match s.find t.place c.partner with
        | none => s
        | some p => if !p.dead && p.out.isEmpty then s.killAt t.place c.partner else s

/-- `release`: one connection less from the address, and no entry for an address
without any. -/
def release (s : Rendezvous) (ip : Vector UInt8 16) : Rendezvous :=
  match s.perIp.lookup ip with
  | none => s
  | some n =>
      { s with perIp := if n ≤ 1 then s.perIp.erase ip else s.perIp.insert ip (n - 1) }

/-- A leg that has everything and whose partner is gone; a worker does not look
at the mode. -/
def orphan (s : Rendezvous) (t : Thread) (c : Conn) : Bool :=
  (t ≠ .loop || c.mode = .splice) && !c.dead && (s.find t.place c.partner).all (·.dead) &&
    c.out.isEmpty

/-- What the loop knows of a connection besides: the service has its records,
and a waiting leg is in the list. -/
def forget (s : Rendezvous) (c : Conn) : Rendezvous :=
  match c.mode with
  | .control => { s with service := s.service.onClose c.key }
  | .relayWaiting =>
      match c.relaySide with
      | none => s
      | some side => if (s.waiting side).lookup c.relayId = some c.key then s.unwait side c.relayId
          else s
  | .new => s
  | .splice => s

/-- One turn of the third loop of `reap`, for one connection that is dead or
whose partner is gone.  `closed` remembers it and is not in the code. -/
def close (s : Rendezvous) (t : Thread) (key : ConnKey) : Rendezvous :=
  match s.find t.place key with
  | none => s
  | some c =>
      if !c.dead && !s.orphan t c then s
      else
        let s := if t = .loop then s.forget c else s
        let s := s.release c.ip
        { s with
          held := s.held.eraseP fun h => h.place = t.place && h.conn.key = key
          closed := c :: s.closed }

/-! ## Workers

Pairs are handed over together, so that a pair is always in one map. -/

/-- A pair goes to the inbox of a worker, both legs at once, unless a leg is
dead already. -/
def handOffPair (s : Rendezvous) (pair : ConnKey × ConnKey) : Rendezvous :=
  match s.find .loop pair.1, s.find .loop pair.2 with
  | some a, some b =>
      if a.dead || b.dead then s
      else
        { s with
          held := s.held.map fun h =>
            if h.place = .loop ∧ (h.conn.key = pair.1 ∨ h.conn.key = pair.2) then
              { h with place := .inbox (s.nextWorker % s.workers) }
            else h
          nextWorker := s.nextWorker + 1 }
  | _, _ => s

/-- `hand_off`: the pairs of the round, each to the next worker in turn. -/
def handOff (s : Rendezvous) : Rendezvous :=
  { s.spliced.foldl handOffPair s with spliced := [] }

/-- A worker takes what is in its inbox into its own map. -/
def takeInbox (s : Rendezvous) (i : Nat) : Rendezvous :=
  { s with held := s.held.map fun h =>
      if h.place = .inbox i then { h with place := .worker i } else h }

/-- A worker says how many connections it has, for `open_connections` to read
from another thread. -/
def publish (s : Rendezvous) (i : Nat) : Rendezvous :=
  { s with counts := Function.update s.counts i (s.held.countP fun h => h.place = .worker i) }

/-! ## Runs

An action is one thing one thread does between two points where another could
come in. -/

/-- The server as its constructor makes it.  The registry draws its secret
there, so it is a parameter. -/
def start (cfg : RendezvousConfig) (secret : SymKey) : Rendezvous :=
  { cfg := cfg, service := ControlService.create cfg.registry secret cfg.control.maxUdpSources }

/-- What a thread does; those of the loop wait while it has something left to
do. -/
inductive Action where
  | accept (peer : Option Address) (now : Instant)
  | read (t : Thread) (key : ConnKey) (got : Recv) (now : Instant)
  | frame (key : ConnKey) (now : Instant) (v : Verdict)
  | goOn (now : Instant) (v : Verdict)
  | flush (t : Thread) (key : ConnKey) (sends : List Send)
  | expire (t : Thread) (key : ConnKey) (now : Instant)
  | follow (t : Thread) (key : ConnKey)
  | close (t : Thread) (key : ConnKey)
  | handOff
  | takeInbox (i : Nat)
  | publish (i : Nat)
  | udp (src : Address) (dgram : Bytes) (now : Instant) (admitted : Bool)
  | tick (now : Instant)
  | stats (now : Instant)

/-- The action is the loop's, and not what it has left to do. -/
def Action.fresh : Action → Bool
  | .accept _ _ => true
  | .read t _ _ _ => t = .loop
  | .frame _ _ _ => true
  | .goOn _ _ => false
  | .flush t _ _ => t = .loop
  | .expire t _ _ => t = .loop
  | .follow t _ => t = .loop
  | .close t _ => t = .loop
  | .handOff => true
  | .takeInbox _ => false
  | .publish _ => false
  | .udp _ _ _ _ => false
  | .tick _ => true
  | .stats _ => false

/-- The server after an action its thread is ready for.  An action is one call
of a socket, one frame, one turn of a loop or one thing a worker does. -/
def act (s : Rendezvous) : Action → Rendezvous
  | .accept peer now => s.accept peer now
  | .read .loop key got now => s.readFrom key got now
  | .read (.worker i) key got now => s.workerRead i key got now
  | .frame key now v => s.takeFrame P key now v
  | .goOn now v => s.goOn P now v
  | .flush t key sends => flush t.place key sends s
  | .expire t key now => s.expire t key now
  | .follow t key => s.follow t key
  | .close t key => s.close t key
  | .handOff => s.handOff
  | .takeInbox i => s.takeInbox i
  | .publish i => s.publish i
  | .udp src dgram now admitted =>
      { s with service := (s.service.onUdp src dgram now admitted).2 }
  | .tick now => { s with service := s.service.tick now }
  | .stats now => { s with service := { s.service with
      registry := s.service.registry.expireFresh now } }

/-- Has the loop nothing left to do? -/
def Doing.isNothing : Doing → Bool
  | .nothing => true
  | .opened _ _ => false
  | .passing _ _ _ _ => false

/-- The server after an action.  While the loop has something left to do its
other actions change nothing, since it would not take them then. -/
def step (s : Rendezvous) (a : Action) : Rendezvous :=
  if a.fresh && !s.doing.isNothing then s else s.act P a

end Rendezvous

end UConnect.Server
