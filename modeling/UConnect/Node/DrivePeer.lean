/-
  Node/DrivePeer.lean --- introductions, dialing and sessions of one peer.

  Source: src/api/node.cpp, `on_relayed`, `adopt_attempt`, `begin_connect`,
  `start_session`, `end_attempt`, `drive_peer` and `disconnect_peer`.

  The poll loop of `drive_peer` takes the session's events in order; no handler
  adds to them, so the loop is a fold over the queue.
-/
import UConnect.Node.Peer

set_option autoImplicit false

namespace UConnect.Node

open UConnect.Foundation UConnect.Crypto UConnect.Wire

/-! ## Constants

The waiting times of an attempt. -/

/-- `kRedial`: the candidates are dialed again this often while punching. -/
def kRedial : Duration := milliseconds 500
/-- `kRelayBackupDelay`: the side that is not to ask for the relay waits this
long for an offer. -/
def kRelayBackupDelay : Duration := seconds 2
/-- `kRelayWindow`: after punching gives up, the time allowed for a relay. -/
def kRelayWindow : Duration := seconds 20
/-- `kLiveSession`: a session heard from this recently is never replaced. -/
def kLiveSession : Duration := seconds 30
/-- `kHandshakeRetry`: after a failed handshake, the wait before a fresh
introduction. -/
def kHandshakeRetry : Duration := seconds 1
/-- `kMaxHandshakeRetries`: how often that is done for one attempt. -/
def kMaxHandshakeRetries : Nat := 2
/-- `close_reason::kGoingAway`, which a node sends to a peer it disconnects. -/
def kGoingAway : UInt16 := 1
/-- `close_reason::kShutdown`, which a node sends when it stops. -/
def kShutdown : UInt16 := 2

/-! ## What a call reads beside the peer

The node's configuration, its time and its tables are not the peer's.  What a
function reads of them is in `Env`; what it does to them is left on the entry as
a record of effects. -/

/-- The rest of the node, as a function that works on one peer sees it. -/
structure Env where
  cfg : NodeConfig
  /-- `ti.self`. -/
  self : Option DevId
  /-- `ctl_state == Ctl::Up`. -/
  ctlUp : Bool := true
  /-- Both peer counts are below their limits. -/
  room : Bool := true
  now : Instant
  /-- What `random_bytes` makes an attempt's nonce. -/
  nonce : AttemptNonce

/-- What a `recv` returns: nothing if it would block. -/
inductive RecvResult where
  | failed
  | data (bytes : Bytes)
  deriving DecidableEq

/-- What the peer's socket returns from its next calls. -/
structure Io where
  recvs : List RecvResult := []
  sends : List SendResult := []
  deriving DecidableEq

/-- `peer_gone_from`: the cause is ours, and only a notice carries a reason of
the peer's. -/
def peerGoneFrom (cause : CloseCause) (peerReason : Nat) : PeerGone :=
  match cause with
  | .local => .local
  | .timedOut => .timedOut
  | .peerNotice =>
      if peerReason = kGoingAway.toNat then .goingAway
      else if peerReason = kShutdown.toNat then .shuttingDown
      else .unspecified

/-- `can_admit`.  A peer that has a session or an attempt holds its place
already. -/
def canAdmit (env : Env) (peer : Peer) : Bool :=
  peer.sess.isSome || peer.attempt.isSome || env.room

namespace Entry

variable (P : Primitives)

/-- An effect is logged. -/
def log (e : Entry) (f : Effect) : Entry := { e with effects := e.effects ++ [f] }

/-! ## Attempts

An attempt is a nonce that two sides have agreed on through the server.  The
table of the node maps it to the peer it is for. -/

/-- `end_attempt`: the nonce leaves the table and the peer, and with it what was
asked for it. -/
def endAttempt (e : Entry) : Entry :=
  let e := match e.peer.attempt with
    | none => e
    | some n => e.log (.erase n)
  { e with
    peer := { e.peer with attempt := none, relayAsked := false, relayJoining := false } }

/-- `dial_all`: one connection to each candidate, all for the attempt of the
moment. -/
def dialAll (env : Env) (e : Entry) : Entry :=
  let e := match e.peer.attempt with
    | none => e
    | some n => e.log (.dial n e.peer.cands)
  { e with peer := { e.peer with nextRedial := env.now + kRedial } }

/-- `adopt_attempt`: from now on the peer is under this nonce and no other.
With relays forced there is no punching, and its deadline is over at once. -/
def adoptAttempt (env : Env) (e : Entry) (attempt : AttemptNonce) : Entry :=
  let e := e.log (.adopt e.peer.attempt attempt)
  let e := { e with
    peer := { e.peer with
      attempt := some attempt
      attemptStarted := env.now
      punchDeadline := if env.cfg.forceRelay then env.now else env.now + env.cfg.punchTimeout
      relayAsked := false
      relayJoining := false
      relayBackupAt := 0 } }
  let e := e.setPeerState .probing
  if env.cfg.forceRelay then e else e.dialAll env

/-- `begin_connect`: a fresh nonce, sent to the peer through the server.  It
does nothing while the control connection is down, and nothing for a peer with a
session or an attempt. -/
def beginConnect (env : Env) (e : Entry) : Entry :=
  if env.self.isNone || !env.ctlUp then e
  else if e.peer.cands = [] then e
  else if e.peer.sess.isSome || e.peer.attempt.isSome then e
  else if !canAdmit env e.peer then e
  else (e.log (.connect env.nonce)).adoptAttempt env env.nonce

/-- `request_relay`: once for each attempt. -/
def requestRelay (env : Env) (e : Entry) : Entry :=
  if e.peer.relayAsked || env.self.isNone || !env.ctlUp then e
  else { e with peer := { e.peer with relayAsked := true } }.log .relayAlloc

/-! ## Driving

One look at a peer in each tick: its retry, then its attempt, or its session. -/

/-- The retry at the head of `drive_peer`: a failed handshake's fresh
introduction. -/
def driveRetry (env : Env) (e : Entry) : Entry :=
  if e.peer.sess.isNone && e.peer.attempt.isNone && e.peer.retryAt ≠ 0 &&
      decide (env.now ≥ e.peer.retryAt) then
    let e := { e with peer := { e.peer with retryAt := 0 } }
    let e := e.beginConnect env
    if e.peer.attempt.isNone then e.setPeerState .failed else e
  else e

/-- When the side that is not designated asks for a relay too. -/
def backupAt (e : Entry) : Instant :=
  if e.peer.relayBackupAt = 0 then e.peer.punchDeadline + kRelayBackupDelay
  else e.peer.relayBackupAt

/-- How `drive_peer` tries to reach the peer: by punching until the deadline,
then over a relay, which the designated side asks for first. -/
def driveReach (env : Env) (e : Entry) : Entry :=
  let designated := env.self.any fun self => smaller self e.peer.devId
  if env.now < e.peer.punchDeadline then
    if env.now ≥ e.peer.nextRedial then e.dialAll env else e
  else if designated then e.requestRelay env
  else if !e.peer.relayAsked then
    let e := { e with peer := { e.peer with relayBackupAt := e.backupAt } }
    if env.now ≥ e.peer.relayBackupAt then e.requestRelay env else e
  else e

/-- The dialing part of `drive_peer`. -/
def driveDial (env : Env) (e : Entry) : Entry :=
  let e := e.driveReach env
  if env.now ≥ e.peer.punchDeadline + kRelayWindow then e.endAttempt.setPeerState .failed else e

/-- The read loop of `drive_peer`, `n` rounds of it. -/
def readSession (now : Instant) : Nat → List RecvResult → TcpSession → TcpSession
  | 0, _, s => s
  | _ + 1, [], s => s
  | n + 1, r :: rs, s =>
      if s.state = .closed then s
      else
        match r with
        | .failed => s.onEof
        | .data [] => s
        | .data bytes => readSession now n rs (s.onBytes P bytes now)

/-- The `Established` case of the event loop. -/
def onEstablished (e : Entry) : Entry :=
  let e := match e.peer.sess with
    | none => e
    | some s => e.log (.established s.attempt)
  let e := e.endAttempt
  let e := { e with peer := { e.peer with retries := 0, retryAt := 0 } }
  e.setPeerState .connected

/-- What the `Closed` case does once the peer is not dialed again under the same
attempt: a retry under a new one, or the end. -/
def onGone (env : Env) (e : Entry) (wasUp : Bool) : Entry :=
  let retry := !wasUp && e.peer.attempt.isSome && decide (e.peer.retries < kMaxHandshakeRetries)
  let e := e.endAttempt
  let e :=
    if retry then
      { e with
        peer := { e.peer with
          retries := e.peer.retries + 1
          retryAt := env.now + kHandshakeRetry } }.setPeerState .probing
    else
      let e := e.setPeerState (if wasUp then .closed else .failed)
      match e.peer.waitingIntro with
      | none => e
      | some n =>
          if env.now - e.peer.waitingIntroAt < env.cfg.punchTimeout + kRelayWindow then
            e.adoptAttempt env n
          else e
  { e with peer := { e.peer with waitingIntro := none } }

/-- The `Closed` case of the event loop. -/
def onClosed (env : Env) (e : Entry) (cause : CloseCause) (peerReason : Nat) : Entry :=
  let wasUp := decide (e.peer.state = .connected)
  let e := e.dgramDrop
  let e := if wasUp then e.defer (.peerClosed (peerGoneFrom cause peerReason)) else e
  let gone := decide (cause = .timedOut)
  if !wasUp && e.peer.attempt.isSome && gone &&
      decide (env.now < e.peer.punchDeadline + kRelayWindow) then
    e.setPeerState .probing
  else e.onGone env wasUp

/-- The body of the event loop. -/
def onEvent (env : Env) (e : Entry) : TcpEvent → Entry
  | .established => e.onEstablished
  | .record kind body => e.onRecord P env.cfg kind body env.now
  | .closed cause peerReason => e.onClosed env cause peerReason

/-- The session half of `drive_peer`, up to the writing: what was read and the
timers, then the events. -/
def driveEvents (env : Env) (e : Entry) (s : TcpSession) (recvs : List RecvResult) : Entry :=
  let s := (readSession P env.now 16 recvs s).onTimeout P env.now
  let e := { e with peer := { e.peer with sess := some { s with events := [] } } }
  s.events.foldl (onEvent P env) e

/-- The end of `drive_peer`: what the session has to say is written, and a
session that has ended goes at once. -/
def driveOutput (e : Entry) (sends : List SendResult) : Entry :=
  match e.peer.sess with
  | none => e
  | some s =>
      let (bytes, s) := s.takeOutput
      let (_, e) := flushPeer sends
        { e with peer := { e.peer with sess := some s, out := e.peer.out ++ bytes } }
      if e.peer.sess.any fun s => s.state = .closed then
        { e with peer := { e.peer with sockOpen := false, sess := none, out := [] } }
      else e

/-- `drive_peer`.  A peer has either an attempt that still dials or a session
that is read from, given its events and written from, in this order. -/
def drivePeer (env : Env) (e : Entry) (io : Io) : Entry :=
  let e := e.driveRetry env
  if e.peer.attempt.isSome && e.peer.sess.isNone then e.driveDial env
  else
    match e.peer.sess with
    | none => e
    | some s => (e.driveEvents P env s io.recvs).driveOutput io.sends

/-! ## Introductions, sessions and the end of a peer

The other places where a peer's attempt and session change: an introduction
arrives, a connection has named its attempt, the application disconnects. -/

/-- The end of `on_relayed`: both sides may have introduced themselves at once,
and then the smaller dev id's attempt is kept. -/
def meetIntro (env : Env) (e : Entry) (self : DevId) (attempt : AttemptNonce) : Entry :=
  if e.peer.attempt.isSome && smaller self e.peer.devId then e else e.adoptAttempt env attempt

/-- An introduction from a peer we hold a session with: it is kept, and the
session is ended if it has been quiet too long, or asked. -/
def keepIntro (env : Env) (e : Entry) (s : TcpSession) (attempt : AttemptNonce) : Entry :=
  let s := if env.now - s.lastRecv ≥ kLiveSession then s.onEof else s.keepalive P env.now
  { e with
    peer := { e.peer with
      waitingIntro := some attempt
      waitingIntroAt := env.now
      sess := some s } }

/-- `on_relayed`, for a decoded introduction to a topic that has been joined. -/
def onRelayed (env : Env) (e : Entry) (attempt : AttemptNonce) (cands : List Candidate)
    (io : Io) : Entry :=
  match env.self with
  | none => e
  | some self =>
      if !canAdmit env e.peer then e
      else
        let e := { e with peer := { e.peer with cands := cands } }
        match e.peer.sess with
        | none => e.meetIntro env self attempt
        | some s =>
            match s.state with
            | .handshaking => e
            | .closed => e.meetIntro env self attempt
            | .established => (e.keepIntro P env s attempt).drivePeer P env io

/-- What `start_session` is given: the topic and its key, the attempt and the
kind of the connection, what arrived on it, and the random bytes of the
handshake. -/
structure Connection where
  topic : TopicId
  psk : Option SymKey
  attempt : AttemptNonce
  relayLeg : Bool := false
  received : Bytes := []
  random : SecretKey
  padding : Vector UInt8 16

/-- The session `start_session` makes: the smaller dev id initiates. -/
def newSession (env : Env) (self peer : DevId) (c : Connection) : TcpSession :=
  if smaller self peer then
    TcpSession.initiate P env.cfg.sessionCfg c.topic 0 c.psk self peer c.attempt env.now c.random
      c.padding
  else
    TcpSession.respond P env.cfg.sessionCfg c.topic 0 c.psk self peer c.attempt env.now c.random

/-- `start_session` up to its last line.  Whatever was queued for an earlier
socket is dropped, and so is its datagram channel; epochs start again, under
other keys. -/
def beginSession (env : Env) (e : Entry) (self : DevId) (c : Connection) : Entry :=
  let s := newSession P env self e.peer.devId c
  let e := { e with
    peer := { e.peer with
      sess := some s
      sockOpen := true
      relayed := c.relayLeg
      waitingIntro := none
      out := [] } }
  let e := e.dgramDrop
  let e := { e with peer := { e.peer with dgramEpoch := 0 } }
  let e := e.setPeerState .handshaking
  if c.received = [] then e
  else { e with peer := { e.peer with sess := some (s.onBytes P c.received env.now) } }

/-- `start_session`; its callers have seen that `ti.self` is set. -/
def startSession (env : Env) (e : Entry) (c : Connection) (io : Io) : Entry :=
  match env.self with
  | none => e
  | some self => (e.beginSession P env self c).drivePeer P env io

/-- The Close of `disconnect_peer`, as far as the socket takes it. -/
def farewell (e : Entry) (reason : UInt16) (sends : List SendResult) : Entry :=
  match e.peer.sess with
  | none => e
  | some s =>
      let (bytes, s) := (s.close P reason).takeOutput
      let (_, e) := flushPeer sends
        { e with peer := { e.peer with sess := some s, out := e.peer.out ++ bytes } }
      { e with peer := { e.peer with sockOpen := false } }

/-- `disconnect_peer`; the caller erases the peer next.  The farewell is queued
and flushed as far as the socket takes it. -/
def disconnectPeer (e : Entry) (reason : UInt16) (sends : List SendResult) : Entry :=
  let wasUp := decide (e.peer.state = .connected)
  let live := wasUp || e.peer.state = .probing || e.peer.state = .handshaking
  let e := (e.farewell P reason sends).endAttempt.dgramDrop
  let e := if wasUp then e.defer (.peerClosed .local) else e
  if live then e.setPeerState .closed else e

/-! ## What changes and what does not

The frame of the functions above, one lemma for each, from which the invariants
about attempts and reports are assembled. -/

@[simp] theorem log_peer (e : Entry) (f : Effect) : (e.log f).peer = e.peer := rfl
@[simp] theorem log_deferred (e : Entry) (f : Effect) : (e.log f).deferred = e.deferred := rfl
@[simp] theorem log_effects (e : Entry) (f : Effect) :
    (e.log f).effects = e.effects ++ [f] := rfl

@[simp] theorem endAttempt_peer (e : Entry) : e.endAttempt.peer =
    { e.peer with attempt := none, relayAsked := false, relayJoining := false } := by
  unfold endAttempt
  cases h : e.peer.attempt <;> rfl

@[simp] theorem endAttempt_deferred (e : Entry) : e.endAttempt.deferred = e.deferred := by
  unfold endAttempt
  cases h : e.peer.attempt <;> rfl

theorem endAttempt_effects (e : Entry) :
    e.endAttempt.effects = e.effects ++ (e.peer.attempt.map Effect.erase).toList := by
  unfold endAttempt
  cases h : e.peer.attempt with
  | none => simp
  | some n => rfl

@[simp] theorem dialAll_peer (env : Env) (e : Entry) :
    (e.dialAll env).peer = { e.peer with nextRedial := env.now + kRedial } := by
  unfold dialAll
  cases h : e.peer.attempt <;> rfl

@[simp] theorem dialAll_deferred (env : Env) (e : Entry) :
    (e.dialAll env).deferred = e.deferred := by
  unfold dialAll
  cases h : e.peer.attempt <;> rfl

theorem dialAll_effects (env : Env) (e : Entry) : (e.dialAll env).effects =
    e.effects ++ (e.peer.attempt.map fun n => Effect.dial n e.peer.cands).toList := by
  unfold dialAll
  cases h : e.peer.attempt with
  | none => simp
  | some n => rfl

theorem requestRelay_peer (env : Env) (e : Entry) :
    ∃ b, (e.requestRelay env).peer = { e.peer with relayAsked := b } := by
  unfold requestRelay
  split <;> exact ⟨_, rfl⟩

@[simp] theorem requestRelay_deferred (env : Env) (e : Entry) :
    (e.requestRelay env).deferred = e.deferred := by
  unfold requestRelay
  split <;> rfl

theorem requestRelay_effects (env : Env) (e : Entry) :
    (e.requestRelay env).effects = e.effects ∨
      (e.requestRelay env).effects = e.effects ++ [.relayAlloc] := by
  unfold requestRelay
  split
  · exact Or.inl rfl
  · exact Or.inr rfl

/-- Trying to reach the peer changes its timers only. -/
theorem driveReach_peer (env : Env) (e : Entry) :
    ∃ redial asked backup, (e.driveReach env).peer =
      { e.peer with nextRedial := redial, relayAsked := asked, relayBackupAt := backup } := by
  unfold driveReach
  simp only
  split
  · split
    · exact ⟨_, _, _, dialAll_peer env e⟩
    · exact ⟨_, _, _, rfl⟩
  · split
    · obtain ⟨b, hb⟩ := requestRelay_peer env e
      exact ⟨_, _, _, hb⟩
    · split
      · split
        · obtain ⟨b, hb⟩ := requestRelay_peer env { e with peer := { e.peer with
            relayBackupAt := e.backupAt } }
          exact ⟨_, _, _, hb⟩
        · exact ⟨_, _, _, rfl⟩
      · exact ⟨_, _, _, rfl⟩

@[simp] theorem driveReach_deferred (env : Env) (e : Entry) :
    (e.driveReach env).deferred = e.deferred := by
  unfold driveReach
  simp only
  repeat' split
  all_goals simp

/-- It dials under the peer's attempt, asks for a relay, or does nothing. -/
theorem driveReach_effects (env : Env) (e : Entry) :
    (e.driveReach env).effects = e.effects ∨
      (∃ n, e.peer.attempt = some n ∧
        (e.driveReach env).effects = e.effects ++ [.dial n e.peer.cands]) ∨
      (e.driveReach env).effects = e.effects ++ [.relayAlloc] := by
  have hrelay : ∀ e' : Entry, e'.effects = e.effects →
      (e'.requestRelay env).effects = e.effects ∨
        (e'.requestRelay env).effects = e.effects ++ [.relayAlloc] := by
    intro e' he'
    rw [← he']
    exact requestRelay_effects env e'
  unfold driveReach
  simp only
  split
  · split
    · rw [dialAll_effects]
      cases h : e.peer.attempt with
      | none => exact Or.inl (by simp)
      | some n => exact Or.inr (Or.inl ⟨n, rfl, rfl⟩)
    · exact Or.inl rfl
  · split
    · rcases hrelay e rfl with h | h
      · exact Or.inl h
      · exact Or.inr (Or.inr h)
    · split
      · split
        · rcases hrelay { e with peer := { e.peer with relayBackupAt := e.backupAt } } rfl
            with h | h
          · exact Or.inl h
          · exact Or.inr (Or.inr h)
        · exact Or.inl rfl
      · exact Or.inl rfl

/-- The peer behind `adopt_attempt`. -/
theorem adoptAttempt_peer (env : Env) (e : Entry) (n : AttemptNonce) :
    (e.adoptAttempt env n).peer =
      { e.peer with
        attempt := some n
        attemptStarted := env.now
        punchDeadline := if env.cfg.forceRelay then env.now else env.now + env.cfg.punchTimeout
        relayAsked := false
        relayJoining := false
        relayBackupAt := 0
        state := .probing
        nextRedial := if env.cfg.forceRelay then e.peer.nextRedial else env.now + kRedial } := by
  unfold adoptAttempt
  cases hf : env.cfg.forceRelay
  · simp only [Bool.false_eq_true, if_false, dialAll_peer, setPeerState_peer, log_peer]
  · simp only [if_true, setPeerState_peer, log_peer]

/-- The tables behind `adopt_attempt`. -/
theorem adoptAttempt_effects (env : Env) (e : Entry) (n : AttemptNonce) :
    (e.adoptAttempt env n).effects = e.effects ++ [.adopt e.peer.attempt n] ∨
      (e.adoptAttempt env n).effects =
        e.effects ++ [.adopt e.peer.attempt n, .dial n e.peer.cands] := by
  unfold adoptAttempt
  split
  · left
    rw [setPeerState_effects]
    rfl
  · right
    rw [dialAll_effects, setPeerState_peer, setPeerState_effects]
    simp

/-- `begin_connect` does nothing, or takes up a new attempt where there was
none. -/
theorem beginConnect_cases (env : Env) (e : Entry) :
    e.beginConnect env = e ∨ (e.peer.sess = none ∧ e.peer.attempt = none ∧
      e.beginConnect env = (e.log (.connect env.nonce)).adoptAttempt env env.nonce) := by
  unfold beginConnect
  split
  · exact Or.inl rfl
  · split
    · exact Or.inl rfl
    · split
      · exact Or.inl rfl
      · rename_i hfree
        split
        · exact Or.inl rfl
        · simp only [Bool.or_eq_true, not_or, Bool.not_eq_true, Option.isSome_eq_false_iff,
            Option.isNone_iff_eq_none] at hfree
          exact Or.inr ⟨hfree.1, hfree.2, rfl⟩

/-- What is left when an introduction has been taken up or given up. -/
def dropIntro (e : Entry) : Entry := { e with peer := { e.peer with waitingIntro := none } }

/-- A session that is gone for good ends its attempt; then there is a retry
later, nothing, or the introduction that waited. -/
theorem onGone_cases (env : Env) (e : Entry) (wasUp : Bool) :
    (∃ r ra, e.onGone env wasUp = ({ e.endAttempt with
        peer := { e.endAttempt.peer with retries := r, retryAt := ra } }.setPeerState
          .probing).dropIntro) ∨
      e.onGone env wasUp =
        (e.endAttempt.setPeerState (if wasUp then .closed else .failed)).dropIntro ∨
      (∃ n, e.peer.waitingIntro = some n ∧ e.onGone env wasUp =
        ((e.endAttempt.setPeerState (if wasUp then .closed else .failed)).adoptAttempt env
          n).dropIntro) := by
  unfold onGone
  simp only
  rcases Decidable.em ((!wasUp && e.peer.attempt.isSome &&
    decide (e.peer.retries < kMaxHandshakeRetries)) = true) with hretry | hretry
  · rw [if_pos hretry]
    exact Or.inl ⟨_, _, rfl⟩
  · rw [if_neg hretry]
    right
    have hwait : (e.endAttempt.setPeerState (if wasUp then .closed else .failed)).peer.waitingIntro
        = e.peer.waitingIntro := by
      rw [setPeerState_peer, endAttempt_peer]
    generalize e.endAttempt.setPeerState (if wasUp then .closed else .failed) = e₁ at hwait ⊢
    cases hw : e₁.peer.waitingIntro with
    | none => exact Or.inl rfl
    | some n =>
        simp only
        split
        · exact Or.inr ⟨n, hwait.symm.trans hw, rfl⟩
        · exact Or.inl rfl

/-- The head of the `Closed` case: the channel goes, and a session that was up
is reported. -/
def reportClosed (e : Entry) (cause : CloseCause) (peerReason : Nat) : Entry :=
  if e.peer.state = .connected then e.dgramDrop.defer (.peerClosed (peerGoneFrom cause peerReason))
  else e.dgramDrop

/-- A session that timed out before it was up is dialed again under the same
attempt; any other is gone. -/
theorem onClosed_cases (env : Env) (e : Entry) (cause : CloseCause) (peerReason : Nat) :
    (e.peer.state ≠ .connected ∧
      e.onClosed env cause peerReason = (e.reportClosed cause peerReason).setPeerState .probing) ∨
      e.onClosed env cause peerReason =
        (e.reportClosed cause peerReason).onGone env (decide (e.peer.state = .connected)) := by
  unfold onClosed reportClosed
  rcases Decidable.em (e.peer.state = .connected) with hup | hup
  · right
    simp [hup]
  · simp only [hup, decide_false, Bool.false_eq_true, if_false]
    split
    · exact Or.inl ⟨hup, rfl⟩
    · exact Or.inr rfl

@[simp] theorem reportClosed_peer (e : Entry) (cause : CloseCause) (peerReason : Nat) :
    (e.reportClosed cause peerReason).peer = { e.peer with dgram := none } := by
  unfold reportClosed
  split
  · rw [defer_peer, dgramDrop_peer]
  · rw [dgramDrop_peer]

@[simp] theorem reportClosed_effects (e : Entry) (cause : CloseCause) (peerReason : Nat) :
    (e.reportClosed cause peerReason).effects = e.effects := by
  unfold reportClosed
  split
  · rw [defer_effects, dgramDrop_effects]
  · rw [dgramDrop_effects]

/-- The peer's addresses are replaced. -/
def withCands (e : Entry) (cands : List Candidate) : Entry :=
  { e with peer := { e.peer with cands := cands } }

/-- What an introduction does: nothing, new addresses, an attempt, or it waits
while the session is asked whether it is still there. -/
theorem onRelayed_cases (P : Primitives) (env : Env) (e : Entry) (n : AttemptNonce)
    (cands : List Candidate) (io : Io) :
    e.onRelayed P env n cands io = e ∨
      (∃ s, e.peer.sess = some s ∧ s.state = .handshaking ∧
        e.onRelayed P env n cands io = e.withCands cands) ∨
      (∃ self, env.self = some self ∧ (∀ s ∈ e.peer.sess, s.state = .closed) ∧
        e.onRelayed P env n cands io = (e.withCands cands).meetIntro env self n) ∨
      (∃ s, e.peer.sess = some s ∧ s.state = .established ∧
        e.onRelayed P env n cands io =
          ((e.withCands cands).keepIntro P env s n).drivePeer P env io) := by
  unfold onRelayed
  split
  · exact Or.inl rfl
  · rename_i self hself
    split
    · exact Or.inl rfl
    · right
      simp only
      split
      · rename_i hs
        refine Or.inr (Or.inl ⟨self, hself, ?_, rfl⟩)
        intro s hs'
        rw [hs] at hs'
        cases hs'
      · rename_i s hs
        split
        · exact Or.inl ⟨s, hs, by assumption, rfl⟩
        · rename_i hclosed
          refine Or.inr (Or.inl ⟨self, hself, ?_, rfl⟩)
          intro s' hs'
          rw [hs] at hs'
          cases hs'
          exact hclosed
        · exact Or.inr (Or.inr ⟨s, hs, by assumption, rfl⟩)

/-- The new session with what had arrived on the connection. -/
def heardSession (P : Primitives) (env : Env) (self peer : DevId) (c : Connection) : TcpSession :=
  let s := newSession P env self peer c
  if c.received = [] then s else s.onBytes P c.received env.now

/-- The peer behind `start_session`, before it is driven. -/
theorem beginSession_peer (P : Primitives) (env : Env) (e : Entry) (self : DevId)
    (c : Connection) :
    (e.beginSession P env self c).peer =
      { e.peer with
        sess := some (heardSession P env self e.peer.devId c)
        sockOpen := true
        relayed := c.relayLeg
        waitingIntro := none
        out := []
        dgram := none
        dgramEpoch := 0
        state := .handshaking } := by
  unfold beginSession heardSession
  rcases Decidable.em (c.received = []) with h | h
  · simp only [if_pos h, setPeerState_peer, dgramDrop_peer]
  · simp only [if_neg h, setPeerState_peer, dgramDrop_peer]

@[simp] theorem beginSession_effects (P : Primitives) (env : Env) (e : Entry) (self : DevId)
    (c : Connection) : (e.beginSession P env self c).effects = e.effects := by
  unfold beginSession
  rcases Decidable.em (c.received = []) with h | h
  · simp only [if_pos h, setPeerState_effects, dgramDrop_effects]
  · simp only [if_neg h, setPeerState_effects, dgramDrop_effects]

end Entry

end UConnect.Node
