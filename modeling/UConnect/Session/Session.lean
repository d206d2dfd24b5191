/-
  Session/Session.lean --- the UDP datagram channel with one peer.

  Source: src/session/session.hpp and src/session/session.cpp.

  The state follows the class field by field, less the peer's id, which no
  function reads.  Loops that step a key once per generation are iterates of
  `rekey`.  `sealed` and `opened` are history variables: what `encrypt_at`
  produced here, and which `decrypt_at` succeeded here.
-/
import UConnect.Crypto.Noise
import UConnect.Wire.Messages
import UConnect.Session.ReplayWindow

set_option autoImplicit false

namespace UConnect

open UConnect.Foundation UConnect.Crypto UConnect.Wire

/-! ## Data model

There is no handshake here: the channel is made with its keys, and closing
erases them. -/

/-- `SessionState`.  A closed channel does nothing any more. -/
inductive SessionState where
  | established
  | closed
  deriving DecidableEq, Repr, Inhabited

/-- `SessionConfig`, with its defaults.  The key for a packet is chosen from its
counter before anything is verified, so three of these bound what an
unauthenticated counter can cost. -/
structure SessionConfig where
  keepalive : Duration := seconds 20
  idleTimeout : Duration := seconds 90
  rekeyShift : Nat := 16
  maxGenerationsAhead : Nat := 2
  maxGenerationsFar : Nat := 4096
  farJumpInterval : Duration := milliseconds 250
  deriving DecidableEq

/-- `Outgoing`: a datagram and the path it takes. -/
structure Outgoing where
  «to» : Endpoint
  data : Bytes
  deriving DecidableEq

/-- `CloseCause`: why a session ended, as this side sees it.  A peer supplies a
reason only. -/
inductive CloseCause where
  | local
  | timedOut
  | peerNotice
  deriving DecidableEq, Repr, Inhabited

/-- `SessionEvent`, each kind with the fields it fills in. -/
inductive SessionEvent where
  | data (bytes : Bytes)
  | pathChanged (path : Endpoint)
  | closed (cause : CloseCause) (peerReason : Nat)
  deriving DecidableEq

/-- An `encrypt_at` of this session. -/
structure Sealed where
  key : SymKey
  nonce : Nat
  ad : Bytes
  plain : Bytes
  cipher : Bytes
  deriving DecidableEq

/-- A `decrypt_at` of this session that succeeded, and whether the replay window
then took its counter. -/
structure Opened where
  key : SymKey
  nonce : Nat
  ad : Bytes
  plain : Bytes
  cipher : Bytes
  fresh : Bool
  deriving DecidableEq

/-- `Session`.  The previous receiving key is kept for stragglers; `received`
counts what was accepted, and is what `configure_rekey_shift` looks at. -/
structure Session where
  cfg : SessionConfig
  path : Endpoint
  connId : ConnId
  state : SessionState := .established
  sendCs : CipherState
  recvCs : CipherState
  recvCsPrev : CipherState := {}
  sendGen : Nat := 0
  recvGen : Nat := 0
  replay : ReplayWindow := {}
  nextFarJump : Instant := 0
  sendCounter : Nat := 0
  received : Nat := 0
  lastRecv : Instant
  nextKeepalive : Instant
  out : List Outgoing := []
  events : List SessionEvent := []
  /-- History variable: every `encrypt_at`. -/
  «sealed» : List Sealed := []
  /-- History variable: every `decrypt_at` that succeeded. -/
  opened : List Opened := []
  deriving DecidableEq

namespace Session

variable (P : Primitives)

/-- The constructor. -/
def create (cfg : SessionConfig) (path : Endpoint) (send recv : SymKey) (connId : ConnId)
    (now : Instant) : Session where
  cfg := cfg
  path := path
  connId := connId
  sendCs := .ofKey send
  recvCs := .ofKey recv
  lastRecv := now
  nextKeepalive := now + cfg.keepalive

/-- `set_path`: the layer above has another address.  A keepalive is due at
once, which opens the new path; the counters go on. -/
def setPath (s : Session) (path : Endpoint) (now : Instant) : Session :=
  { s with path := path, nextKeepalive := now }

/-- `configure_rekey_shift`: only before any packet was sent or accepted, and
within bounds that keep a generation wider than the replay window. -/
def configureRekeyShift (s : Session) (shift : Nat) : Bool × Session :=
  if s.state ≠ .established || s.sendCounter ≠ 0 || s.received ≠ 0 || shift < 7 ||
      shift > 63 then (false, s)
  else (true, { s with cfg := { s.cfg with rekeyShift := shift } })

/-- `generation`: which key a counter is under.  A shift of 64 or more never
rekeys; the source tests for it because such a shift is undefined. -/
def generation (s : Session) (counter : Nat) : Nat :=
  if s.cfg.rekeyShift ≥ 64 then 0 else counter / 2 ^ s.cfg.rekeyShift

/-- `close_with_cause`: the keys are erased, the event says why.  A second call
does nothing. -/
def closeWithCause (s : Session) (cause : CloseCause) (peerReason : Nat) : Session :=
  if s.state = .closed then s
  else
    { s with
      state := .closed
      sendCs := s.sendCs.clear
      recvCs := s.recvCs.clear
      recvCsPrev := s.recvCsPrev.clear
      events := s.events ++ [.closed cause peerReason] }

/-- `close`: without a word to the peer. -/
def close (s : Session) : Session := s.closeWithCause .local 0

/-! ## Receiving

A packet is tried under the key its counter names.  Nothing but the far-jump
allowance moves before it has been authenticated. -/

/-- The key `open_packet` selects for generation `g`, if it holds or can derive
one, and whether that is a jump ahead. -/
def selectKey (s : Session) (g : Nat) (now : Instant) : Option (CipherState × Bool) :=
  if g = s.recvGen then some (s.recvCs, false)
  else if s.recvGen > 0 ∧ g + 1 = s.recvGen then some (s.recvCsPrev, false)
  else if g > s.recvGen ∧ (g - s.recvGen ≤ s.cfg.maxGenerationsAhead ∨
      (g - s.recvGen ≤ s.cfg.maxGenerationsFar ∧ now ≥ s.nextFarJump)) then
    some ((CipherState.rekey P)^[g - s.recvGen] s.recvCs, true)
  else none

/-- A far jump is spent whether or not the packet verifies. -/
def spendFarJump (s : Session) (g : Nat) (jumped : Bool) (now : Instant) : Session :=
  if jumped ∧ g - s.recvGen > s.cfg.maxGenerationsAhead then
    { s with nextFarJump := now + s.cfg.farJumpInterval }
  else s

/-- Adopt generation `g` after a jump; the one below it is kept for stragglers. -/
def adopt (s : Session) (g : Nat) : Session :=
  { s with
    recvCsPrev := (CipherState.rekey P)^[g - s.recvGen - 1] s.recvCs
    recvCs := (CipherState.rekey P)^[g - s.recvGen] s.recvCs
    recvGen := g }

/-- `open_packet`: select a key, verify, check for a replay, and only then adopt
a new generation. -/
def openPacket (s : Session) (counter : Nat) (ad ciphertext : Bytes) (now : Instant) :
    Option Bytes × Session :=
  let g := s.generation counter
  match s.selectKey P g now with
  | none => (none, s)
  | some (use, jumped) =>
      let s := s.spendFarJump g jumped now
      match use.decryptAt P counter ad ciphertext with
      | none => (none, s)
      | some plain =>
          let (fresh, replay) := s.replay.accept counter
          let s := { s with
            replay := replay
            opened := s.opened ++ [⟨use.key, counter, ad, plain, ciphertext, fresh⟩] }
          if !fresh then (none, s)
          else (some plain, if jumped then s.adopt P g else s)

/-- `close_reason::kUnspecified`, what a notice without a reason counts as. -/
def kUnspecified : Nat := 0

/-- The reason a close notice carries. -/
def closeReason (plain : Bytes) : Nat :=
  if plain.length ≥ 2 then beVal (plain.take 2) else kUnspecified

/-- The `Close` half of `on_datagram`. -/
def onClose (s : Session) (m : Transport) (now : Instant) : Session :=
  match s.openPacket P m.counter [MsgType.close] m.ciphertext now with
  | (none, s) => s
  | (some plain, s) => { s with lastRecv := now }.closeWithCause .peerNotice (closeReason plain)

/-- What a `Transport` packet does once opened: follow the peer to a new
address, and hand up its payload unless it is a keepalive. -/
def deliver (s : Session) (src : Endpoint) (plain : Bytes) (now : Instant) : Session :=
  let s := { s with received := incr 64 s.received, lastRecv := now }
  let s := if src.same s.path then s
    else { s with path := src, events := s.events ++ [.pathChanged src] }
  if plain.isEmpty then s else { s with events := s.events ++ [.data plain] }

/-- The `Transport` half of `on_datagram`. -/
def onTransport (s : Session) (src : Endpoint) (t : Transport) (now : Instant) : Session :=
  match s.openPacket P t.counter [] t.ciphertext now with
  | (none, s) => s
  | (some plain, s) => s.deliver src plain now

/-- `on_datagram`.  A datagram of another channel, another version or no known
type is dropped without a trace. -/
def onDatagram (s : Session) (src : Endpoint) (dgram : Bytes) (now : Instant) : Session :=
  if s.state = .closed then s
  else
    match Header.decode { rest := dgram } with
    | (none, _) => s
    | (some h, r) =>
        if h.type = MsgType.close then
          match Transport.decode r with
          | none => s
          | some m => if m.connId ≠ s.connId then s else s.onClose P m now
        else if h.type ≠ MsgType.transport then s
        else
          match Transport.decode r with
          | none => s
          | some t => if t.connId ≠ s.connId then s else s.onTransport P src t now

/-! ## Sending

The counter goes up with every packet, keepalives and notices included. -/

/-- `advance_send_keys`: one step for every generation the counter has moved
on.  The loop of the source does nothing when the counter is behind, which it
never is. -/
def advanceSendKeys (s : Session) (counter : Nat) : Session :=
  let g := s.generation counter
  { s with
    sendCs := (CipherState.rekey P)^[g - s.sendGen] s.sendCs
    sendGen := max s.sendGen g }

/-- Seal a packet of either type at the send counter and queue it, if it fits a
buffer of `capacity` bytes; the common part of `send_packet` and `queue_close`. -/
def sealPacket (s : Session) (type : MsgType) (ad plain : Bytes) (capacity : Nat) :
    Bool × Session :=
  let s := s.advanceSendKeys P s.sendCounter
  let ct := s.sendCs.encryptAt P s.sendCounter ad plain
  let s := { s with «sealed» := s.sealed ++ [⟨s.sendCs.key, s.sendCounter, ad, plain, ct⟩] }
  let w := ({ type := type } : Header).encode { capacity := capacity }
  let w := ({ connId := s.connId, counter := s.sendCounter, ciphertext := ct } :
    Transport).encode w
  if !w.ok then (false, s)
  else
    (true, { s with
      sendCounter := incr 64 s.sendCounter
      out := s.out ++ [⟨s.path, w.written⟩] })

/-- `send_packet`: the packet number used.  A packet that does not fit is not
sent, and its number is not used up. -/
def sendPacket (s : Session) (payload : Bytes) (now : Instant) : Option Nat × Session :=
  if s.state ≠ .established then (none, s)
  else
    let used := s.sendCounter
    let (ok, s) := s.sealPacket P MsgType.transport [] payload (kMaxDatagram + 64)
    if !ok then (none, s)
    else (some used, { s with nextKeepalive := now + s.cfg.keepalive })

/-- `send`.  An empty payload is refused, since it would read as a keepalive. -/
def send (s : Session) (payload : Bytes) (now : Instant) : Option Nat × Session :=
  if payload.isEmpty then (none, s) else s.sendPacket P payload now

/-- `kCloseCopies`: a notice is not acknowledged, so it is sent three times. -/
def kCloseCopies : Nat := 3

/-- `queue_close`: a sealed reason, under the type as additional data, so that
neither kind of packet can be taken for the other. -/
def queueClose (s : Session) (reason : UInt16) : Session :=
  (s.sealPacket P MsgType.close [MsgType.close] (beBytes 2 reason.toNat) kMaxDatagram).2

/-- `close_with_notice`: the copies are queued before the keys go. -/
def closeWithNotice (s : Session) (reason : UInt16) : Session :=
  if s.state = .closed then s
  else ((fun s => s.queueClose P reason)^[kCloseCopies] s).close

/-! ## Timers and polling

What the loop around a channel calls between two datagrams. -/

/-- `on_timeout`.  Silence is looked at first; only then is a keepalive sent. -/
def onTimeout (s : Session) (now : Instant) : Session :=
  if s.state = .closed then s
  else if now - s.lastRecv ≥ s.cfg.idleTimeout then s.closeWithCause .timedOut 0
  else if now ≥ s.nextKeepalive then (s.sendPacket P [] now).2
  else s

/-- `next_timeout`: the earlier of the two deadlines. -/
def nextTimeout (s : Session) : Option Instant :=
  if s.state = .closed then none
  else
    let idle := s.lastRecv + s.cfg.idleTimeout
    some (if s.nextKeepalive < idle then s.nextKeepalive else idle)

/-! ## Runs

Every public call that changes a channel, as one step. -/

/-- One call of a session's interface. -/
inductive Op where
  | send (payload : Bytes) (now : Instant)
  | onDatagram (src : Endpoint) (dgram : Bytes) (now : Instant)
  | onTimeout (now : Instant)
  | setPath (path : Endpoint) (now : Instant)
  | close
  | closeWithNotice (reason : UInt16)
  deriving DecidableEq

/-- The session after a call. -/
def step (s : Session) : Op → Session
  | .send payload now => (s.send P payload now).2
  | .onDatagram src dgram now => s.onDatagram P src dgram now
  | .onTimeout now => s.onTimeout P now
  | .setPath path now => s.setPath path now
  | .close => s.close
  | .closeWithNotice reason => s.closeWithNotice P reason

/-- A call of the interface, the one that sets the schedule included. -/
inductive Call where
  | op (op : Op)
  | configureRekeyShift (shift : Nat)
  deriving DecidableEq

/-- The session after a call of either kind. -/
def call (s : Session) : Call → Session
  | .op op => s.step P op
  | .configureRekeyShift shift => (s.configureRekeyShift shift).2

/-- The time a call is made at, for those that are told. -/
def Call.time? : Call → Option Instant
  | .op (.send _ now) => some now
  | .op (.onDatagram _ _ now) => some now
  | .op (.onTimeout now) => some now
  | .op (.setPath _ now) => some now
  | _ => none

end Session

end UConnect
