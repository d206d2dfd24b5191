/-
  Path/Punch.lean --- punching a hole for the datagram channel.

  Source: src/path/punch.hpp and src/path/punch.cpp.

  The candidates of a peer are ranked into pairs, each is probed until it
  answers or has used its attempts, and the best pair that answered is
  nominated.  A session reads no clock and no entropy of its own: the
  transaction ids and the draws of the jitter generator are given, and the
  generator is the list of what it returns with the number of draws so far.
  `std::sort` may leave pairs of one priority in any order, so `Created` admits
  each order it may leave.
-/
import UConnect.Wire.Sizes

set_option autoImplicit false

namespace UConnect

open UConnect.Foundation UConnect.Crypto UConnect.Wire

namespace Wire

/-- `MsgType::Probe`, of the datagram channel and not of the control protocol. -/
def MsgType.probe : MsgType := 0x20
/-- `MsgType::ProbeOk`, the answer that proves a path. -/
def MsgType.probeOk : MsgType := 0x21

/-- `ProbeTxn`: drawn for each pair, and echoed by whoever receives there. -/
abbrev ProbeTxn := Vector UInt8 16
/-- `ProbeTag`, the first half of a keyed hash. -/
abbrev ProbeTag := Vector UInt8 16

end Wire

namespace Path

/-! ## Data model

The peer's id is left out: no function reads it.  So is the local view, which
only the ranking looks at; it is an argument of `rank`. -/

/-- `PunchState`.  `failed` can still become `nominated`, when an answer arrives
behind the last probe. -/
inductive PunchState where
  | idle
  | probing
  | nominated
  | failed
  deriving DecidableEq, Repr, Inhabited

/-- `PunchConfig`, with its defaults.  All durations of the source are in
milliseconds; here they are in the unit of every `Duration`, and `count` goes
back to milliseconds where the source takes a count. -/
structure PunchConfig where
  firstRetransmit : Duration := milliseconds 100
  maxRetransmit : Duration := milliseconds 1600
  stagger : Duration := milliseconds 20
  totalTimeout : Duration := seconds 8
  nominationGrace : Duration := milliseconds 50
  maxAttemptsPerPair : Int := 7
  deriving DecidableEq

/-- `Outgoing`: a datagram and where it goes. -/
structure Outgoing where
  dest : Endpoint
  data : Bytes
  deriving DecidableEq

/-- `PunchEvent`, each kind with the fields it fills in. -/
inductive PunchEvent where
  | pathValidated (path : Endpoint) (txn : ProbeTxn) (rtt : Duration)
  | nominated (path : Endpoint) (txn : ProbeTxn) (rtt : Duration)
  | failed
  deriving DecidableEq

/-- `PunchSession::Pair`: a candidate and what its probes have come to.
`exhausted` says that its attempts are used up, `validated` that it has
answered. -/
structure Pair where
  remote : Candidate
  priority : Nat := 0
  txn : ProbeTxn
  nextSend : Instant := 0
  firstSent : Instant := 0
  attempts : Nat := 0
  validated : Bool := false
  exhausted : Bool := false
  rtt : Duration := 0
  deriving DecidableEq

/-- `PunchSession`.  The pairs stay in the order of their priorities once they
are sorted. -/
structure PunchSession where
  cfg : PunchConfig
  /-- `keyed_` and `probe_key_`. -/
  probeKey : Option SymKey
  pairs : List Pair
  state : PunchState := .idle
  started : Instant := 0
  nominateAt : Option Instant := none
  /-- `nominated_`, an index into the pairs. -/
  nominated : Option Nat := none
  out : List Outgoing := []
  events : List PunchEvent := []
  txnCounter : Nat := 1
  /-- What `jitter_` returns, draw by draw. -/
  jitter : Nat → UInt64
  /-- How often it was drawn from. -/
  drawn : Nat := 0

/-! ## Probe tags and packets

A probe names its transaction and, under a key, proves that the key is known.
The tag does not cover addresses, which a NAT rewrites on the way. -/

variable (P : Primitives)

/-- `kProbeDomain`, what the tag of a probe is hashed under. -/
def kProbeDomain : Bytes := ascii "uconnect:v1:probe-req"
/-- `kProbeOkDomain`, what the tag of an answer is hashed under, so that a probe
cannot be turned into its own answer. -/
def kProbeOkDomain : Bytes := ascii "uconnect:v1:probe-res"

/-- `probe_tag`: zeros without a key, where there is nothing to prove, and else
half of the keyed hash of the transaction under its domain. -/
def probeTag (probeKey : Option SymKey) (txn : ProbeTxn) (isResponse : Bool) : ProbeTag :=
  match probeKey with
  | none => Vector.replicate 16 0
  | some key =>
      let domain := if isResponse then kProbeOkDomain else kProbeDomain
      copyInto 16 (P.mac key.toList (domain ++ txn.toList)).toList

/-- A header and a body in a buffer of one datagram. -/
def packet (type : MsgType) (txnId : Nat) (body : Writer → Writer) : Bytes :=
  (body (Header.encode { type := type, txnId := txnId } { capacity := kMaxDatagram })).written

/-- `encode_probe`: 40 bytes, all of them the header's and the body's. -/
def encodeProbe (txn : ProbeTxn) (tag : ProbeTag) (txnId : Nat) : Bytes :=
  packet .probe txnId (Probe.encode { txn := txn, tag := tag })

/-- `encode_probe_ok`: the answer also says where the probe came from. -/
def encodeProbeOk (txn : ProbeTxn) (mapped : Endpoint) (tag : ProbeTag) (txnId : Nat) : Bytes :=
  packet .probeOk txnId (ProbeOk.encode { txn := txn, mapped := mapped, tag := tag })

/-- `answer_probe`: the answer to a probe, or none if the datagram is something
else or its tag is wrong.  It reads no session, since a node answers for peers
it has no attempt for. -/
def answerProbe (src : Endpoint) (dgram : Bytes) (probeKey : Option SymKey) (txnId : Nat) :
    Option Outgoing :=
  match Header.decode { rest := dgram } with
  | (none, _) => none
  | (some h, r) =>
      if h.type ≠ .probe then none
      else
        match Probe.decode.run r with
        | none => none
        | some (probe, _) =>
            if probeKey.isSome && probeTag P probeKey probe.txn false ≠ probe.tag then none
            else
              let tag := probeTag P probeKey probe.txn true
              some { dest := src, data := encodeProbeOk probe.txn src tag txnId }

/-! ## Construction and ranking

Candidates nobody could reach are dropped, and the rest is sorted by a rank
computed from the kind of the candidate and its address. -/

/-- `kPrefHost`: a host address is the most direct. -/
def kPrefHost : Nat := 126
/-- `kPrefSrflx`, for an address the server has seen. -/
def kPrefSrflx : Nat := 100
/-- `kPrefRelay`, the last resort, and also what a reflexive address behind our
own NAT is brought down to. -/
def kPrefRelay : Nat := 10

/-- `rank`, under the reflexive address of the local view.  Behind the same NAT
a reflexive pair needs the router to send a packet back inside, which many do
not do. -/
def rank (ourSrflx : Option Endpoint) (c : Candidate) : Nat :=
  let typePref :=
    match c.kind with
    | .host => kPrefHost
    | .srflx => kPrefSrflx
    | .relay => kPrefRelay
  let sameNat : Bool :=
    match ourSrflx with
    | none => false
    | some ours => c.kind == .srflx && c.ep.ip.same ours.ip
  let score := if sameNat then kPrefRelay * 2 ^ 16 else typePref * 2 ^ 16
  let score := if c.ep.ip.family = .v6 then score + 4096 else score
  if c.kind ≠ .host && !c.ep.ip.isPrivate then score + 512 else score

/-- Is a candidate kept by the constructor? A loopback host address and port 0
are not; a loopback address the server has seen is, since then both are on one
machine. -/
def usable (c : Candidate) : Bool :=
  !(c.ep.ip.isLoopback && c.kind == .host) && c.ep.port != 0

/-- The pairs before they are sorted; the `i`-th kept candidate draws `txns i`. -/
def newPairs (ourSrflx : Option Endpoint) (remoteCands : List Candidate) (txns : Nat → ProbeTxn) :
    List Pair :=
  (remoteCands.filter usable).zipIdx.map fun (c, i) =>
    { remote := c, priority := rank ourSrflx c, txn := txns i }

/-- A session as the constructor leaves it.  Any order of the pairs that
descends in priority is one `std::sort` may leave. -/
inductive Created : PunchSession → Prop where
  | mk (cfg : PunchConfig) (probeKey : Option SymKey) (ourSrflx : Option Endpoint)
      (remoteCands : List Candidate) (txns : Nat → ProbeTxn) (jitter : Nat → UInt64)
      (pairs : List Pair) (hperm : pairs.Perm (newPairs ourSrflx remoteCands txns))
      (hsorted : pairs.Pairwise fun a b => a.priority ≥ b.priority) :
      Created { cfg := cfg, probeKey := probeKey, pairs := pairs, jitter := jitter }

namespace PunchSession

/-! ## Driving

What the clock makes a session do.  Every pair is probed on a schedule of its
own; a look at the clock goes over all of them in one pass. -/

/-- `count` of a duration, and back. -/
def count (d : Duration) : Int := d.tdiv 1000000

/-- The loop of `backoff_for`: doubles while below `max`, `n` times at most.
The count is a 64-bit integer in the source, which `max` keeps far from its
bounds. -/
def double (max : Int) : Nat → Int → Int
  | 0, ms => ms
  | n + 1, ms => if ms < max then double max n (ms * 2) else ms

/-- `backoff_for`, given what the generator returns: the doubled interval, cut
at `max`, give or take a quarter.  Division is C++'s, towards zero, and the
divisor of the remainder is taken to 32 bits as the cast does. -/
def backoffFor (cfg : PunchConfig) (attempt : Nat) (draw : UInt64) : Duration :=
  let max := count cfg.maxRetransmit
  let ms := double max attempt (count cfg.firstRetransmit)
  let ms := if ms > max then max else ms
  let raw : Int := (draw &&& 0xFFFF).toNat
  let spread := ms.tdiv 2
  let jitter := if spread = 0 then 0 else raw % ((spread + 1) % 2 ^ 32) - spread.tdiv 2
  (ms + jitter) * 1000000

/-- The loop body of `maybe_nominate`: the pair at index `i` against the best so
far. -/
def better (best : Option (Nat × Pair)) (i : Nat) (p : Pair) : Option (Nat × Pair) :=
  if !p.validated then best
  else
    match best with
    | none => some (i, p)
    | some (b, q) => if p.priority > q.priority then some (i, p) else some (b, q)

/-- The loop of `maybe_nominate`, from index `i` on. -/
def bestFrom (i : Nat) (best : Option (Nat × Pair)) : List Pair → Option (Nat × Pair)
  | [] => best
  | p :: ps => bestFrom (i + 1) (better best i p) ps

/-- `maybe_nominate`: the best of the pairs that have answered, the first one
among equals.  A session nominates once. -/
def maybeNominate (s : PunchSession) : PunchSession :=
  if s.nominated.isSome then s
  else
    match bestFrom 0 none s.pairs with
    | none => s
    | some (i, p) =>
        { s with
          nominated := some i
          nominateAt := none
          state := .nominated
          events := s.events ++ [.nominated p.remote.ep p.txn p.rtt] }

/-- `emit_probe`: the session, and the pair as it is then.  The source writes
through a reference into the list of pairs; here the pair is handed back. -/
def emitProbe (s : PunchSession) (p : Pair) (now : Instant) : PunchSession × Pair :=
  let tag := probeTag P s.probeKey p.txn false
  ({ s with
      out := s.out ++ [{ dest := p.remote.ep, data := encodeProbe p.txn tag s.txnCounter }]
      txnCounter := incr 32 s.txnCounter
      drawn := s.drawn + 1 },
    { p with
      firstSent := if p.attempts = 0 then now else p.firstSent
      attempts := p.attempts + 1
      nextSend := now + backoffFor s.cfg (p.attempts + 1) (s.jitter s.drawn) })

/-- The loop body of `on_timeout`; the flag says that the pair is live. -/
def visit (s : PunchSession) (p : Pair) (now : Instant) : PunchSession × Pair × Bool :=
  if p.validated || p.exhausted then (s, p, false)
  else if (p.attempts : Int) ≥ s.cfg.maxAttemptsPerPair then (s, { p with exhausted := true }, false)
  else if now ≥ p.nextSend then
    let (s, p) := s.emitProbe P p now
    (s, p, true)
  else (s, p, true)

/-- The loop of `on_timeout`, over the pairs in their order; the flag says that
some pair is live. -/
def visitAll (now : Instant) : PunchSession → List Pair → PunchSession × List Pair × Bool
  | s, [] => (s, [], false)
  | s, p :: ps =>
      let (s, p, live) := s.visit P p now
      let (s, ps, anyLive) := visitAll now s ps
      (s, p :: ps, live || anyLive)

/-- No candidate answered. -/
def giveUp (s : PunchSession) : PunchSession :=
  { s with state := .failed, events := s.events ++ [.failed] }

/-- A nomination that was put off is made once it is due. -/
def nominateIfDue (s : PunchSession) (now : Instant) : PunchSession :=
  match s.nominateAt with
  | none => s
  | some t => if now ≥ t then s.maybeNominate else s

/-- What `on_timeout` does after its loop.  When no pair is live any more and
none was nominated, the session ends at once, also when the last probe could
still be answered. -/
def conclude (s : PunchSession) (anyLive : Bool) (now : Instant) : PunchSession :=
  let s := s.nominateIfDue now
  if !anyLive && s.nominated.isNone then
    if s.pairs.any Pair.validated then s.maybeNominate else s.giveUp
  else s

/-- `on_timeout`.  Behind the total timeout nothing is probed: what has answered
is nominated, or the session fails. -/
def onTimeout (s : PunchSession) (now : Instant) : PunchSession :=
  if s.state ≠ .probing then s.nominateIfDue now
  else if now - s.started ≥ s.cfg.totalTimeout then
    let s := if s.nominated.isNone then s.maybeNominate else s
    if s.nominated.isNone then s.giveUp else s
  else
    let (s', pairs, anyLive) := visitAll P now s s.pairs
    { s' with pairs := pairs }.conclude anyLive now

/-- The first burst, one pair after another, so that a peer with many candidates
does not see them all in one instant. -/
def schedule (s : PunchSession) (now : Instant) : PunchSession :=
  { s with
    started := now
    state := .probing
    pairs := s.pairs.zipIdx.map fun (p, i) => { p with nextSend := now + s.cfg.stagger * i } }

/-- `begin`.  Without any pair the session fails at once; a second call does
nothing. -/
def begin (s : PunchSession) (now : Instant) : PunchSession :=
  if s.state ≠ .idle then s
  else if s.pairs.isEmpty then { s with started := now }.giveUp
  else (s.schedule now).onTimeout P now

/-! ## Receiving

A datagram is a probe of the peer, an answer to one of ours, or nothing of
interest. -/

/-- `on_peer_probe`: the next probe to that address is brought forward. -/
def onPeerProbe (s : PunchSession) (src : Endpoint) (now : Instant) : PunchSession :=
  { s with
    pairs := s.pairs.map fun p =>
      if p.remote.ep.same src && !p.validated && !p.exhausted then { p with nextSend := now }
      else p }

/-- A reply for the pair at index `i`.  Its address replaces the candidate's,
since a NAT may have mapped it to another; the pair with the best rank is
nominated at once, and any other after a grace in which a better one may answer. -/
def validate (s : PunchSession) (i : Nat) (p : Pair) (src : Endpoint) (now : Instant) :
    PunchSession :=
  let p :=
    { p with
      remote := { p.remote with ep := src }
      validated := true
      rtt := count (now - p.firstSent) * 1000000 }
  let s :=
    { s with
      pairs := s.pairs.set i p
      events := s.events ++ [.pathValidated src p.txn p.rtt] }
  if s.nominated.isSome then s
  else if i = 0 then s.maybeNominate
  else if s.nominateAt.isNone then { s with nominateAt := some (now + s.cfg.nominationGrace) }
  else s

/-- The transaction a datagram answers: it is a `ProbeOk` and, under a key, its
tag is right. -/
def answered (probeKey : Option SymKey) (dgram : Bytes) : Option ProbeTxn :=
  match Header.decode { rest := dgram } with
  | (none, _) => none
  | (some h, r) =>
      if h.type ≠ .probeOk then none
      else
        match ProbeOk.decode.run r with
        | none => none
        | some (ok, _) =>
            if probeKey.isSome && probeTag P probeKey ok.txn true ≠ ok.tag then none
            else some ok.txn

/-- Is a datagram headed as a probe? Its body and its tag are not looked at. -/
def probing (dgram : Bytes) : Bool :=
  match Header.decode { rest := dgram } with
  | (none, _) => false
  | (some h, _) => h.type == .probe

/-- `on_datagram` on a `Probe`: answered if it may be, and noted.  The
transaction counter moves and the next probe is brought forward whether or not
it was answered. -/
def onProbe (s : PunchSession) (src : Endpoint) (dgram : Bytes) (now : Instant) :
    PunchSession :=
  let reply := answerProbe P src dgram s.probeKey s.txnCounter
  { s with
    txnCounter := incr 32 s.txnCounter
    out := s.out ++ reply.toList }.onPeerProbe src now

/-- `on_datagram` on a `ProbeOk` for a transaction: the first pair that has it,
unless it has answered before. -/
def onProbeOk (s : PunchSession) (src : Endpoint) (txn : ProbeTxn) (now : Instant) :
    PunchSession :=
  match s.pairs.findIdx? fun p => p.txn == txn with
  | none => s
  | some i =>
      match s.pairs[i]? with
      | none => s
      | some p => if p.validated then s else s.validate i p src now

/-- `on_datagram`: anything that is neither a probe nor a valid answer is
dropped silently. -/
def onDatagram (s : PunchSession) (src : Endpoint) (dgram : Bytes) (now : Instant) :
    PunchSession :=
  if probing dgram then s.onProbe P src dgram now
  else
    match answered P s.probeKey dgram with
    | none => s
    | some txn => s.onProbeOk src txn now

/-! ## Polling and runs

What is handed out, and the calls as steps.  `ledger` collects what a run hands
out together with what it leaves queued, so that a statement about all packets
need not say who polled. -/

/-- `poll_transmit`: the oldest packet not yet handed out. -/
def pollTransmit (s : PunchSession) : Option Outgoing × PunchSession :=
  match s.out with
  | [] => (none, s)
  | o :: rest => (some o, { s with out := rest })

/-- `poll_event`: the oldest event not yet handed out. -/
def pollEvent (s : PunchSession) : Option PunchEvent × PunchSession :=
  match s.events with
  | [] => (none, s)
  | e :: rest => (some e, { s with events := rest })

/-- `nominated_path`: where the nominated pair answered from. -/
def nominatedPath (s : PunchSession) : Option Endpoint :=
  (s.nominated.bind (s.pairs[·]?)).map (·.remote.ep)

/-- `nominated_txn`: the transaction that proved it. -/
def nominatedTxn (s : PunchSession) : Option ProbeTxn :=
  (s.nominated.bind (s.pairs[·]?)).map Pair.txn

/-- One call of a session's interface.  `next_timeout` and the getters change
nothing and are left out. -/
inductive Op where
  | begin (now : Instant)
  | onTimeout (now : Instant)
  | onDatagram (src : Endpoint) (dgram : Bytes) (now : Instant)
  | onPeerProbe (src : Endpoint) (now : Instant)
  | pollTransmit
  | pollEvent
  deriving DecidableEq

/-- The time a call is given, if it is given one. -/
def Op.time : Op → Option Instant
  | .begin now => some now
  | .onTimeout now => some now
  | .onDatagram _ _ now => some now
  | .onPeerProbe _ now => some now
  | .pollTransmit => none
  | .pollEvent => none

/-- The session after a call; what a poll hands out is in `polled` and `taken`. -/
def step (s : PunchSession) : Op → PunchSession
  | .begin now => s.begin P now
  | .onTimeout now => s.onTimeout P now
  | .onDatagram src dgram now => s.onDatagram P src dgram now
  | .onPeerProbe src now => s.onPeerProbe src now
  | .pollTransmit => s.pollTransmit.2
  | .pollEvent => s.pollEvent.2

/-- The event a call hands out. -/
def polled (s : PunchSession) : Op → List PunchEvent
  | .pollEvent => s.pollEvent.1.toList
  | _ => []

/-- The packet a call hands out. -/
def taken (s : PunchSession) : Op → List Outgoing
  | .pollTransmit => s.pollTransmit.1.toList
  | _ => []

/-- All events of a run, polled or not, in the order they arose. -/
def emitted (s : PunchSession) (ops : List Op) : List PunchEvent :=
  ledger polled events (step P) s ops

/-- All packets of a run, polled or not, in the order they were queued. -/
def sent (s : PunchSession) (ops : List Op) : List Outgoing :=
  ledger taken out (step P) s ops

end PunchSession

end Path

end UConnect
