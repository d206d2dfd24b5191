/-
  Session/TcpSession.lean --- the reliable session over one TCP connection.

  Source: src/session/tcp_session.hpp and src/session/tcp_session.cpp.

  A Noise handshake in u16-framed messages, then AEAD records in u32-framed
  ones.  The loop of `on_bytes` is cut in two: `nextFrame` looks at the buffered
  bytes and either waits or takes a frame off their front, and `act` does with
  the frame what the loop body does.  The random bytes a session uses are its
  arguments: the padding of message 1 and the secret `KeyPair::generate`
  returns.
-/
import UConnect.Crypto.Noise
import UConnect.Session.Session

set_option autoImplicit false

namespace UConnect

open UConnect.Foundation UConnect.Crypto

/-! ## Data model

The private members of `TcpSession` become the fields of one structure.  Nothing
here reads a clock: the time is an argument of every call that looks at it, as
in the source. -/

/-- `AttemptNonce`: names the introduction a connection answers.  It travels in
the clear. -/
abbrev AttemptNonce := Vector UInt8 16

/-- `kAttemptLen`, the length of an attempt's nonce. -/
def kAttemptLen : Nat := 16
/-- `kDevIdLen`, the length of a device's id and of the claim a handshake
payload opens with. -/
def kDevIdLen : Nat := 16
/-- `kMaxHandshakeFrame`.  A length under it has a high byte below two, which is
what tells a handshake frame from a hello. -/
def kMaxHandshakeFrame : Nat := 512
/-- `kInitPadding`: the random bytes behind the initiator's id in message 1. -/
def kInitPadding : Nat := 16

/-- `TcpSessionConfig`, with its defaults.  Both ends count the same records, so
`rekey_every` needs no coordination on the wire.  Nothing sets it to 0, by which
the source would divide. -/
structure TcpSessionConfig where
  keepalive : Duration := seconds 20
  idleTimeout : Duration := seconds 90
  handshakeTimeout : Duration := seconds 10
  maxRecord : Nat := 2 ^ 20
  rekeyEvery : Nat := 2 ^ 20
  deriving DecidableEq

/-- `TcpEvent`: what the layer above polls.  Each kind carries only the fields
the source fills in for it; `closed` keeps both the cause and the reason the
peer gave. -/
inductive TcpEvent where
  | established
  | record (kind : UInt8) (body : Bytes)
  | closed (cause : CloseCause) (peerReason : Nat)
  deriving DecidableEq

/-- `TcpSession::State`.  Nothing leads out of `closed`. -/
inductive TcpState where
  | handshaking
  | established
  | closed
  deriving DecidableEq, Repr, Inhabited

/-- `TcpSession`.  `hs` is there while the handshake runs, the two cipher states
afterwards; `exported` is the secret the datagram keys come from.  `in_` and
`out` are the bytes not yet consumed and not yet written, `events` what was not
yet polled. -/
structure TcpSession where
  cfg : TcpSessionConfig
  initiator : Bool
  self : DevId
  peer : DevId
  attempt : AttemptNonce
  state : TcpState := .handshaking
  hs : Option HandshakeState := none
  sendCs : CipherState := {}
  recvCs : CipherState := {}
  sentRecords : Nat := 0
  recvRecords : Nat := 0
  handshakeHash : Hash := Vector.replicate 32 0
  exported : Hash := Vector.replicate 32 0
  nextDatagramEpoch : Nat := 0
  in_ : Bytes := []
  out : Bytes := []
  events : List TcpEvent := []
  started : Instant
  lastRecv : Instant
  lastSent : Instant
  deriving DecidableEq

/-- `TcpSession::DatagramKeys`: `send` is this side's sending direction, and
both ends compute the same `probe` and `connId`. -/
structure DatagramKeys where
  send : SymKey
  recv : SymKey
  probe : SymKey
  connId : Nat
  deriving DecidableEq

namespace TcpSession

variable (P : Primitives)

/-- `kKeepalive`, the kind of a record that says nothing. -/
def kKeepalive : UInt8 := 0x01
/-- `kClose`, the kind of the last record a side sends. -/
def kClose : UInt8 := 0x02
/-- `kFirstUserKind`.  Kinds below it are the session's own, and those it does
not know are skipped; the rest belong to the layer above. -/
def kFirstUserKind : UInt8 := 0x10
/-- `kHello0`, the letter U. -/
def kHello0 : UInt8 := 0x55
/-- `kHello1`, the letter C. -/
def kHello1 : UInt8 := 0x43
/-- `kHelloLen`: two letters and the attempt. -/
def kHelloLen : Nat := 2 + kAttemptLen

/-- `prologue`.  Both ends must agree on all of it, or the handshake fails: the
version, the topic, the epoch of its key and the one introduction this
connection answers. -/
def prologue (topic : TopicId) (keyEpoch : UInt8) (attempt : AttemptNonce) : Bytes :=
  ascii "uconnect:v4:tcp" ++ topic.toList ++ [keyEpoch] ++ attempt.toList

/-- `fail`: everything secret is cleared, and what was received and not yet read
is dropped.  What was queued for the socket stays; a second call does nothing. -/
def fail (s : TcpSession) (cause : CloseCause) : TcpSession :=
  if s.state = .closed then s
  else
    { s with
      state := .closed
      exported := Vector.replicate 32 0
      hs := none
      sendCs := s.sendCs.clear
      recvCs := s.recvCs.clear
      in_ := []
      events := s.events ++ [.closed cause 0] }

/-- The pattern a key calls for. -/
def patternFor (psk : Option SymKey) : Pattern := if psk.isSome then .nnPsk0 else .nn

/-- What both factories build before any message. -/
def create (cfg : TcpSessionConfig) (initiator : Bool) (topic : TopicId) (keyEpoch : UInt8)
    (psk : Option SymKey) (self peer : DevId) (attempt : AttemptNonce) (now : Instant)
    (random : SecretKey) : TcpSession where
  cfg := cfg
  initiator := initiator
  self := self
  peer := peer
  attempt := attempt
  hs := some (.create P (patternFor psk) initiator (prologue topic keyEpoch attempt) psk random)
  started := now
  lastRecv := now
  lastSent := now

/-- `initiate`: message 1 is queued at once, behind the attempt it answers.  The
padding is the source's call of `random_bytes`. -/
def initiate (cfg : TcpSessionConfig) (topic : TopicId) (keyEpoch : UInt8)
    (psk : Option SymKey) (self peer : DevId) (attempt : AttemptNonce) (now : Instant)
    (random : SecretKey) (padding : Vector UInt8 16) : TcpSession :=
  let s := create P cfg true topic keyEpoch psk self peer attempt now random
  match s.hs.bind fun hs => hs.writeMessage P (self.toList ++ padding.toList) 256 with
  | none => s.fail .local
  | some (msg, hs) =>
      { s with
        hs := some hs
        out := s.out ++ beBytes 2 (kAttemptLen + msg.length) ++ attempt.toList ++ msg }

/-- `respond`: a session that waits for message 1 of the attempt it was built
for. -/
def respond (cfg : TcpSessionConfig) (topic : TopicId) (keyEpoch : UInt8)
    (psk : Option SymKey) (self peer : DevId) (attempt : AttemptNonce) (now : Instant)
    (random : SecretKey) : TcpSession :=
  create P cfg false topic keyEpoch psk self peer attempt now random

/-- `hello`: what a responder that dialed opens with.  It is no part of the
handshake. -/
def hello (attempt : AttemptNonce) : Bytes := kHello0 :: kHello1 :: attempt.toList

/-- `peek_hello`: the attempt a hello names, once all of it is there. -/
def peekHello (received : Bytes) : Option AttemptNonce :=
  if received.length < kHelloLen then none
  else if received.take 2 ≠ [kHello0, kHello1] then none
  else some (copyInto 16 (received.drop 2))

/-- `peek_attempt`: the attempt an initiator's first frame names.  The node
looks it up before there is a session to hand the bytes to. -/
def peekAttempt (received : Bytes) : Option AttemptNonce :=
  if received.length < 2 + kAttemptLen then none
  else
    let len := beVal (received.take 2)
    if len < kAttemptLen || len > kMaxHandshakeFrame then none
    else some (copyInto 16 (received.drop 2))

/-! ## Receiving

The loop of `on_bytes` takes frames off the buffer until one is incomplete or
the session has closed.  Which frame may come next depends on the state alone,
and a frame is looked at only when all of it has arrived. -/

/-- What the loop of `on_bytes` finds at the front of the buffer. -/
inductive Frame where
  /-- A hello, to be skipped. -/
  | hello
  /-- Something no frame can start with. -/
  | bad
  /-- The body of a u16 frame. -/
  | message (body : Bytes)
  /-- The body of a u32 frame. -/
  | record (body : Bytes)
  deriving DecidableEq

/-- A frame behind a length of `width` bytes; a length that `bad` rejects ends
the session before its body is awaited. -/
def prefixed (width : Nat) (bad : Nat → Bool) (frame : Bytes → Frame) (buf : Bytes) :
    Option (Frame × Bytes) :=
  if buf.length < width then none
  else
    let len := beVal (buf.take width)
    if bad len then some (.bad, buf)
    else if buf.length < width + len then none
    else some (frame ((buf.drop width).take len), buf.drop (width + len))

/-- The next frame and what follows it; `none` waits for more bytes. -/
def nextFrame (s : TcpSession) (buf : Bytes) : Option (Frame × Bytes) :=
  match s.state with
  | .closed => none
  | .handshaking =>
      if s.initiator && buf.head? = some kHello0 then
        if buf.length < kHelloLen then none
        else if (peekHello buf).isNone then some (.bad, buf)
        else some (.hello, buf.drop kHelloLen)
      else
        prefixed 2 (fun len => len > kMaxHandshakeFrame || (!s.initiator && len < kAttemptLen))
          .message buf
  | .established =>
      prefixed 4 (fun len => len < 1 + kTagLen || len > s.cfg.maxRecord + 1 + kTagLen)
        .record buf

/-- `finish`: the handshake is over, and from now on both directions carry
records.  Bytes that are already buffered stay: they are the peer's first
records. -/
def finish (s : TcpSession) (split : Split) (now : Instant) : TcpSession :=
  { s with
    sendCs := split.send
    recvCs := split.recv
    handshakeHash := split.handshakeHash
    exported := split.exported
    hs := none
    state := .established
    lastRecv := now
    lastSent := now
    events := s.events ++ [.established] }

/-- Does the payload of a handshake message open with the expected dev id? -/
def claims (payload : Bytes) (dev : DevId) : Bool :=
  decide (kDevIdLen ≤ payload.length) && payload.take kDevIdLen == dev.toList

/-- The responder's half of the loop body: message 1 in, message 2 out. -/
def onMessage1 (s : TcpSession) (frame : Bytes) (now : Instant) : TcpSession :=
  if frame.take kAttemptLen ≠ s.attempt.toList then s.fail .local
  else
    match s.hs.bind fun hs => hs.readMessage P (frame.drop kAttemptLen) 256 with
    | none => s.fail .local
    | some (payload, hs) =>
        if !claims payload s.peer then s.fail .local
        else
          match hs.writeMessage P s.self.toList 256 with
          | none => s.fail .local
          | some (msg, hs) =>
              { s with out := s.out ++ beBytes 2 msg.length ++ msg }.finish (hs.split P) now

/-- The initiator's half of the loop body: message 2 in. -/
def onMessage2 (s : TcpSession) (frame : Bytes) (now : Instant) : TcpSession :=
  match s.hs.bind fun hs => hs.readMessage P frame 256 with
  | none => s.fail .local
  | some (payload, hs) =>
      if !claims payload s.peer then s.fail .local else s.finish (hs.split P) now

/-- `handle_record`.  A Close ends the session with the reason it carries, 0 if
it carries none; unlike `fail` it leaves the bytes behind it in the buffer. -/
def handleRecord (s : TcpSession) (plain : Bytes) : TcpSession :=
  match plain with
  | [] => s
  | kind :: body =>
      if kind = kKeepalive then s
      else if kind = kClose then
        let reason := if body.length ≥ 2 then beVal (body.take 2) else 0
        { s with
          state := .closed
          exported := Vector.replicate 32 0
          sendCs := s.sendCs.clear
          recvCs := s.recvCs.clear
          events := s.events ++ [.closed .peerNotice reason] }
      else if kind < kFirstUserKind then s
      else { s with events := s.events ++ [.record kind body] }

/-- The record half of the loop body.  TCP neither loses nor reorders, so a
record whose tag does not verify ends the session.  The key is stepped after the
record that fills the count, and before the record is looked at. -/
def onRecord (s : TcpSession) (ct : Bytes) (now : Instant) : TcpSession :=
  match s.recvCs.decryptWithAd P [] ct (ct.length - kTagLen) with
  | none => s.fail .local
  | some (plain, cs) =>
      let n := incr 64 s.recvRecords
      let cs := if n % s.cfg.rekeyEvery = 0 then cs.rekey P else cs
      { s with recvCs := cs, recvRecords := n, lastRecv := now }.handleRecord plain

/-- What the loop body does with a frame. -/
def act (s : TcpSession) (frame : Frame) (now : Instant) : TcpSession :=
  match frame with
  | .hello => s
  | .bad => s.fail .local
  | .message body => if s.initiator then s.onMessage2 P body now else s.onMessage1 P body now
  | .record body => s.onRecord P body now

/-- One round of the loop of `on_bytes`; `none` is its `return`. -/
def round (s : TcpSession) (now : Instant) : Option TcpSession :=
  (s.nextFrame s.in_).map fun (frame, rest) => { s with in_ := rest }.act P frame now

/-- The loop of `on_bytes`, with a bound on its rounds. -/
def pump (now : Instant) : Nat → TcpSession → TcpSession
  | 0, s => s
  | n + 1, s =>
      if s.state = .closed then s
      else
        match s.round P now with
        | none => s
        | some s' => pump now n s'

/-- `on_bytes`; a round that goes on takes a byte at least, so the bound is
never met. -/
def onBytes (s : TcpSession) (bytes : Bytes) (now : Instant) : TcpSession :=
  if s.state = .closed then s
  else
    let s := { s with in_ := s.in_ ++ bytes }
    s.pump P now (s.in_.length + 1)

/-- `on_eof`: the socket ended without a Close, which counts as the peer having
vanished. -/
def onEof (s : TcpSession) : TcpSession :=
  if s.state ≠ .closed then s.fail .timedOut else s

/-! ## Sending

A record is sealed under the key of the moment and queued at once, so that the
order of the calls is the order on the wire. -/

/-- `seal`: the length, then the sealed kind and body.  The key is stepped after
the record that fills the count.  The length has four bytes, and a record longer
than they can say is written with a length that is too small, as in the source. -/
def sealRecord (s : TcpSession) (kind : UInt8) (body : Bytes) : TcpSession :=
  let (ct, cs) := s.sendCs.encryptWithAd P [] (kind :: body)
  let n := incr 64 s.sentRecords
  { s with
    out := s.out ++ beBytes 4 ct.length ++ ct
    sentRecords := n
    sendCs := if n % s.cfg.rekeyEvery = 0 then cs.rekey P else cs }

/-- `send`: false, and nothing done, if the session is not established, the kind
is one of the session's own or the body is over the limit. -/
def send (s : TcpSession) (kind : UInt8) (body : Bytes) (now : Instant) :
    Bool × TcpSession :=
  if s.state ≠ .established || kind < kFirstUserKind || body.length > s.cfg.maxRecord then
    (false, s)
  else (true, { s.sealRecord P kind body with lastSent := now })

/-- `close`: the peer is told why if it can be, then everything secret is
cleared.  What was received and not yet read stays, but no call looks at it
again. -/
def close (s : TcpSession) (reason : UInt16) : TcpSession :=
  if s.state = .closed then s
  else
    let s := if s.state = .established then s.sealRecord P kClose (beBytes 2 reason.toNat) else s
    { s with
      state := .closed
      hs := none
      exported := Vector.replicate 32 0
      sendCs := s.sendCs.clear
      recvCs := s.recvCs.clear
      events := s.events ++ [.closed .local 0] }

/-- `keepalive`: one goes out now and not when it falls due.  A host that has
lost the connection answers it with a reset. -/
def keepalive (s : TcpSession) (now : Instant) : TcpSession :=
  if s.state ≠ .established then s else { s.sealRecord P kKeepalive [] with lastSent := now }

/-! ## Timers and polling

What the loop around a session calls between two reads. -/

/-- `on_timeout`.  A handshake that takes too long and a peer that has been
silent too long end the session; otherwise a keepalive goes out when nothing
else has for a while. -/
def onTimeout (s : TcpSession) (now : Instant) : TcpSession :=
  match s.state with
  | .handshaking =>
      if now - s.started ≥ s.cfg.handshakeTimeout then s.fail .timedOut else s
  | .established =>
      if now - s.lastRecv ≥ s.cfg.idleTimeout then s.fail .timedOut
      else if now - s.lastSent ≥ s.cfg.keepalive then
        { s.sealRecord P kKeepalive [] with lastSent := now }
      else s
  | .closed => s

/-- `take_output`: the bytes for the socket, in order; the queue is empty
afterwards. -/
def takeOutput (s : TcpSession) : Bytes × TcpSession := (s.out, { s with out := [] })

/-- `poll_event`: the oldest event.  Events outlive the end of the session. -/
def pollEvent (s : TcpSession) : Option TcpEvent × TcpSession :=
  match s.events with
  | [] => (none, s)
  | e :: rest => (some e, { s with events := rest })

/-! ## Keys for the datagram channel

The exported secret is a chain: the keys of an epoch are derived from its link,
and the link is overwritten before they are handed out.  A key that has been
derived once cannot be derived again. -/

/-- `max_datagram_epoch_skip`, which keeps a peer from forcing unbounded work
with a far epoch. -/
def maxDatagramEpochSkip : Nat := 64

/-- One step of the exported secret, the lambda `advance` of `datagram_keys`. -/
def advanceExported (s : TcpSession) : TcpSession :=
  { s with
    exported := copyInto 32 (hkdf P s.exported.toList [] (ascii "uconnect:v3:udp:next") kHashLen)
    nextDatagramEpoch := s.nextDatagramEpoch + 1 }

/-- `datagram_keys`: the keys of an epoch not yet passed, at most
`maxDatagramEpochSkip` ahead; deriving them passes it.  The epoch is also the
salt, so that no two channels share a key. -/
def datagramKeys (s : TcpSession) (epoch : Nat) : Option DatagramKeys × TcpSession :=
  if s.state ≠ .established || epoch < s.nextDatagramEpoch ||
      epoch - s.nextDatagramEpoch > maxDatagramEpochSkip then (none, s)
  else
    let s := (advanceExported P)^[epoch - s.nextDatagramEpoch] s
    let derive (label : String) (len : Nat) : Bytes :=
      hkdf P s.exported.toList (beBytes 4 epoch) (ascii label) len
    let i2r : SymKey := copyInto 32 (derive "uconnect:v2:udp:i2r" 32)
    let r2i : SymKey := copyInto 32 (derive "uconnect:v2:udp:r2i" 32)
    (some
      { send := if s.initiator then i2r else r2i
        recv := if s.initiator then r2i else i2r
        probe := copyInto 32 (derive "uconnect:v2:udp:probe" 32)
        connId := beVal (derive "uconnect:v2:udp:conn" 4) },
      s.advanceExported P)

/-! ## Runs

Every public call that can change a session, as one step.  The theorems about
all reachable sessions are inductions over lists of these. -/

/-- One call of a session's interface.  Those that only read, such as
`next_timeout` or `sas`, are left out. -/
inductive Op where
  | onBytes (bytes : Bytes) (now : Instant)
  | onEof
  | onTimeout (now : Instant)
  | send (kind : UInt8) (body : Bytes) (now : Instant)
  | close (reason : UInt16)
  | keepalive (now : Instant)
  | takeOutput
  | pollEvent
  | datagramKeys (epoch : Nat)
  deriving DecidableEq

/-- The session after a call; what the call returns is forgotten here. -/
def step (s : TcpSession) : Op → TcpSession
  | .onBytes bytes now => s.onBytes P bytes now
  | .onEof => s.onEof
  | .onTimeout now => s.onTimeout P now
  | .send kind body now => (s.send P kind body now).2
  | .close reason => s.close P reason
  | .keepalive now => s.keepalive P now
  | .takeOutput => s.takeOutput.2
  | .pollEvent => s.pollEvent.2
  | .datagramKeys epoch => (s.datagramKeys P epoch).2

end TcpSession

end UConnect
