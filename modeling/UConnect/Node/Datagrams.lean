/-
  Node/Datagrams.lean --- opening and closing datagram channels, and when the
  two sides of a session agree on them.

  Source: src/api/node.cpp, the datagram members of `Topic` and the offer of
  `drive_dgram`.

  Two peers are joined by a TCP session; what one side's session accepts, the
  other side reads as records, in order.  Either side opens, offers and closes
  at any time.  A channel that is closed before it was offered leaves its epoch
  used on one side only: an offer the peer later makes at that epoch is dropped
  without a word, and the peer's channel stays in `Opening`.
  `datagram_channels_agree` says that this is the only way to disagree.
-/
import Mathlib.Data.List.Forall2
import UConnect.Foundation.EpochChannel
import UConnect.Foundation.Run
import UConnect.Node.Peer
import UConnect.Session.DatagramKeys

set_option autoImplicit false

namespace UConnect.Node

open UConnect.Foundation UConnect.Foundation.EpochChannel UConnect.Crypto UConnect.Wire

/-- A record: its kind and its body, as the TCP session delivers them. -/
abbrev Record := UInt8 × Bytes

/-- What a node knows of its UDP socket.  The socket itself is not modelled;
these are the facts about it that an offer and a path are made from. -/
structure UdpView where
  /-- `udp_ready`. -/
  ready : Bool := false
  /-- `udp_srflx`. -/
  srflx : Option Endpoint := none
  /-- `host_cands`. -/
  hostCands : List Candidate := []
  /-- `udp.local_port()`. -/
  localPort : Nat := 0
  deriving DecidableEq

/-- `udp_candidates`: the address the server has seen, then the host's own under
the port of the UDP socket, up to the cap. -/
def UdpView.candidates (u : UdpView) : List Candidate :=
  let c := u.srflx.toList.map fun ep => { kind := .srflx, ep := ep }
  let hosts := u.hostCands.map fun h =>
    { kind := .host, ep := { ip := h.ep.ip, port := u.localPort } }
  c ++ hosts.take (kMaxCandidates - c.length)

/-! ## The operations

The calls of the application, and the parts of a tick that are about opening and
closing. -/

namespace Entry

variable (P : Primitives)

/-- `open_datagrams`: under the epoch behind the last one used.  A channel that
has failed may be replaced, and any other may not. -/
def openDatagrams (cfg : NodeConfig) (e : Entry) (fb : DatagramFallback) (now : Instant) :
    Bool × Entry :=
  match e.peer.sess with
  | none => (false, e)
  | some s =>
      if s.state ≠ .established then (false, e)
      else if e.peer.dgram.any fun d => d.path ≠ .failed then (false, e)
      else if e.peer.dgramEpoch = 2 ^ 32 - 1 then (false, e)
      else dgramOpen P cfg e (e.peer.dgramEpoch + 1) fb now

/-- `close_datagrams`, with the record the session accepted.  The channel goes
whether or not the record could be queued. -/
def closeDatagrams (e : Entry) (now : Instant) (io : List SendResult) :
    List Record × List SendResult × Entry :=
  match e.peer.dgram with
  | none => ([], io, e)
  | some d =>
      let body := encodeU32 d.epoch
      let (sent, io, e) := e.sendRecord P kDgramClose body now io
      (if sent then [(kDgramClose, body)] else [], io, e.dgramDrop)

/-- `d.offered = true`, which is set once the offer's record has been accepted. -/
def markOffered (e : Entry) : Entry :=
  { e with peer := { e.peer with dgram := e.peer.dgram.map fun d => { d with offered := true } } }

/-- Is it time for our offer: is our UDP mapping known, or have we waited long
enough? -/
def offerDue (d : Dgram) (udp : UdpView) (now : Instant) : Bool :=
  !d.offered && (udp.srflx.isSome || !udp.ready || decide (now - d.opened ≥ kGatherWait))

/-- The offer's body. -/
def offerBody (cfg : NodeConfig) (d : Dgram) (udp : UdpView) : Bytes :=
  encodeDgramOffer d.epoch cfg.rekeyShift (if udp.ready then udp.candidates else [])

/-- The offer of `drive_dgram`, with the record the session accepted. -/
def driveOffer (cfg : NodeConfig) (e : Entry) (udp : UdpView) (now : Instant)
    (io : List SendResult) : List Record × List SendResult × Entry :=
  match e.peer.sess, e.peer.dgram with
  | some s, some d =>
      if s.state ≠ .established then ([], io, e)
      else if offerDue d udp now then
        let body := offerBody cfg d udp
        let (sent, io, e) := e.sendRecord P kDgramOffer body now io
        (if sent then [(kDgramOffer, body)] else [], io, e.markOffered)
      else ([], io, e)
  | _, _ => ([], io, e)

/-- `send_datagrams_over_tcp`: from now on; there is no way back for this
channel. -/
def sendDatagramsOverTcp (e : Entry) : Bool × Entry :=
  match e.peer.dgram with
  | none => (false, e)
  | some d =>
      if e.peer.sess.isNone || d.path = .failed || d.path = .none then (false, e)
      else if d.overTcp then (true, e)
      else
        let e := { e with peer := { e.peer with dgram := some { d with overTcp := true } } }
        (true, if d.path ≠ .tcp then e.defer (.datagramPath .tcp) else e)

/-- What punching, the UDP relay and the packets of the channel can do to it.
None of them looks at a channel before the peer's offer is there; after that
they may bring it to any path, and its session to any state. -/
def udpActs (e : Entry) (path : DatagramPath) (sess : Session) : Entry :=
  match e.peer.dgram with
  | none => e
  | some d =>
      if d.remote.isNone then e
      else
        { e with peer := { e.peer with dgram := some { d with sess := sess } } }.dgramSetPath path

end Entry

/-! ## Two sides and the records between them

Each side has its entry and its environment, and the records on the way are two
lists. -/

/-- One side: its configuration and its entry for the other.  Nothing else of
its node matters to the channel. -/
structure Side where
  cfg : NodeConfig
  entry : Entry

/-- Two sides and the records on their way, oldest first.  The TCP session
between them delivers in order and loses nothing while it stands. -/
structure DgramLink where
  left : Side
  right : Side
  toRight : List Record := []
  toLeft : List Record := []

/-- What a side does: a call of its application, a turn of its loop, or a record
that arrives. -/
inductive DgramOp where
  | openDatagrams (fb : DatagramFallback) (now : Instant)
  | closeDatagrams (now : Instant)
  | driveDgram (udp : UdpView) (now : Instant)
  | receive (now : Instant)
  | sendDatagramsOverTcp
  | udpActs (path : DatagramPath) (sess : Session)

namespace Side

variable (P : Primitives)

/-- An operation at a side with `inbox` waiting: the side, what is still
waiting, and what it sent.  The connection takes every byte it is given. -/
def act (x : Side) (inbox : List Record) : DgramOp → Side × List Record × List Record
  | .openDatagrams fb now =>
      ({ x with entry := (x.entry.openDatagrams P x.cfg fb now).2 }, inbox, [])
  | .closeDatagrams now =>
      let (sent, _, e) := x.entry.closeDatagrams P now []
      ({ x with entry := e }, inbox, sent)
  | .driveDgram udp now =>
      let (sent, _, e) := x.entry.driveOffer P x.cfg udp now []
      ({ x with entry := e }, inbox, sent)
  | .receive now =>
      match inbox with
      | [] => (x, [], [])
      | (kind, body) :: rest =>
          ({ x with entry := x.entry.onRecord P x.cfg kind body now }, rest, [])
  | .sendDatagramsOverTcp => ({ x with entry := x.entry.sendDatagramsOverTcp.2 }, inbox, [])
  | .udpActs path sess => ({ x with entry := x.entry.udpActs path sess }, inbox, [])

end Side

/-- Which side acts. -/
inductive Which where
  | left
  | right
  deriving DecidableEq

namespace DgramLink

variable (P : Primitives)

/-- The link with its sides exchanged. -/
def flip (l : DgramLink) : DgramLink := ⟨l.right, l.left, l.toLeft, l.toRight⟩

/-- A side by name. -/
def side (l : DgramLink) : Which → Side
  | .left => l.left
  | .right => l.right

/-- The left side acts: it may take records from its inbox, and what it sends is
appended to the other's. -/
def stepLeft (l : DgramLink) (op : DgramOp) : DgramLink :=
  let (x, inbox, sent) := l.left.act P l.toLeft op
  ⟨x, l.right, l.toRight ++ sent, inbox⟩

/-- One step.  The right side's is the left side's with the two exchanged, so
what is proved of the one holds of both. -/
def step (l : DgramLink) : Which × DgramOp → DgramLink
  | (.left, op) => l.stepLeft P op
  | (.right, op) => (l.flip.stepLeft P op).flip

/-- A side whose session was just established: `start_session` put no channel
beside it and the epochs start again. -/
structure Started (x : Side) : Prop where
  dgram : x.entry.peer.dgram = none
  dgramEpoch : x.entry.peer.dgramEpoch = 0
  sess : ∃ s, x.entry.peer.sess = some s ∧ s.state = .established ∧ s.cfg = x.cfg.sessionCfg ∧
    s.nextDatagramEpoch = 0

/-- Nothing is in flight and every channel was offered: the sides know all there
is to know of each other. -/
def Quiet (l : DgramLink) : Prop :=
  l.toRight = [] ∧ l.toLeft = [] ∧
    (∀ d ∈ l.left.entry.peer.dgram, d.offered = true) ∧
    ∀ d ∈ l.right.entry.peer.dgram, d.offered = true

/-- Neither side holds a channel, or both hold the same one and each has the
other's offer. -/
def Agree (l : DgramLink) : Prop :=
  (l.left.entry.peer.dgram = none ∧ l.right.entry.peer.dgram = none) ∨
    ∃ c d, l.left.entry.peer.dgram = some c ∧ l.right.entry.peer.dgram = some d ∧
      c.epoch = d.epoch ∧ c.remote.isSome = true ∧ d.remote.isSome = true

/-- A channel is closed only once its offer was sent or the peer's came. -/
def ClosesKnown (l : DgramLink) : Which × DgramOp → Prop
  | (w, .closeDatagrams _) =>
      ∀ d ∈ (l.side w).entry.peer.dgram, d.offered = true ∨ d.remote.isSome = true
  | _ => True

instance ClosesKnown.decidable (l : DgramLink) : ∀ op, Decidable (ClosesKnown l op)
  | (w, .closeDatagrams _) =>
      inferInstanceAs (Decidable (∀ d ∈ (l.side w).entry.peer.dgram,
        d.offered = true ∨ d.remote.isSome = true))
  | (_, .openDatagrams _ _) => .isTrue trivial
  | (_, .driveDgram _ _) => .isTrue trivial
  | (_, .receive _) => .isTrue trivial
  | (_, .sendDatagramsOverTcp) => .isTrue trivial
  | (_, .udpActs _ _) => .isTrue trivial

instance Quiet.decidable (l : DgramLink) : Decidable (Quiet l) :=
  inferInstanceAs (Decidable (l.toRight = [] ∧ l.toLeft = [] ∧
    (∀ d ∈ l.left.entry.peer.dgram, d.offered = true) ∧
    ∀ d ∈ l.right.entry.peer.dgram, d.offered = true))

end DgramLink

/-! ## The view the two sides share

What must hold of both sides and of the records between them: which epochs have
been used, by whom, and what is still on its way. -/

/-- A channel, as the peer can know it. -/
def Dgram.chan (d : Dgram) : Chan where
  epoch := d.epoch
  offered := d.offered
  answered := d.remote.isSome

/-- A side, as the peer can know it. -/
def Entry.party (e : Entry) : Party where
  high := e.peer.dgramEpoch
  chan := e.peer.dgram.map Dgram.chan

/-- The record that carries a note.  Whatever else is in the record, and
whatever other records pass, is not about channels. -/
inductive Carries : Record → Note → Prop where
  | offer {epoch shift : Nat} (cands : List Candidate) (hepoch : epoch < 2 ^ 32)
      (hshift : 7 ≤ shift ∧ shift ≤ 63) :
      Carries (kDgramOffer, encodeDgramOffer epoch shift cands) (.offer epoch)
  | close {epoch : Nat} (hepoch : epoch < 2 ^ 32) :
      Carries (kDgramClose, encodeU32 epoch) (.close epoch)

/-- A channel's session no packet has been through, either way. -/
structure Untouched (s : Session) : Prop where
  state : s.state = .established
  sendCounter : s.sendCounter = 0
  received : s.received = 0

/-- A TCP session that carries channels up to epoch `high`: it is up, an offer
fits a record, and the keys of later epochs can still be derived. -/
structure Bears (s : TcpSession) (high : Nat) : Prop where
  state : s.state = .established
  maxRecord : 166 ≤ s.cfg.maxRecord
  /-- The exported secret stands just above the last channel. -/
  next : s.nextDatagramEpoch = high + 1 ∨ (s.nextDatagramEpoch = 0 ∧ high = 0)

/-- What holds of a side at all times, by itself. -/
structure Ready (e : Entry) : Prop where
  sess : ∃ s, e.peer.sess = some s ∧ Bears s e.peer.dgramEpoch
  epoch_lt : e.peer.dgramEpoch < 2 ^ 32
  /-- Before the peer's offer nothing happens on a channel. -/
  waiting : ∀ d ∈ e.peer.dgram, d.remote = none → Untouched d.sess ∧ d.path ≠ .failed

/-! ## Keys for the next channel

The session under a channel must still have the keys of the epoch behind the
last one used. -/

section Keys

variable (P : Primitives)

/-- The next epoch's keys are there. -/
theorem Bears.datagramKeys {s : TcpSession} {high : Nat} (h : Bears s high) :
    ∃ keys s', s.datagramKeys P (high + 1) = (some keys, s') ∧ Bears s' (high + 1) := by
  have hgiven : ¬ s.Refuses (high + 1) := by
    rintro (hstate | hpassed | hfar)
    · exact hstate h.state
    · rcases h.next with hn | ⟨hn, -⟩ <;> omega
    · simp only [TcpSession.maxDatagramEpochSkip] at hfar
      rcases h.next with hn | ⟨hn, h0⟩ <;> omega
  rw [TcpSession.datagramKeys_of_not_refuses hgiven]
  exact ⟨_, _, rfl, h.state, h.maxRecord, Or.inl rfl⟩

end Keys

/-! ## The operations, seen from the peer

What each operation does to the shared view. -/

section Steps

variable (P : Primitives) (cfg : NodeConfig) (now : Instant) {e : Entry}

/-- Opening the channel after the last one succeeds. -/
theorem Ready.dgramOpen (h : Ready e) (hlt : e.peer.dgramEpoch + 1 < 2 ^ 32)
    (fb : DatagramFallback) :
    ∃ e', e.dgramOpen P cfg (e.peer.dgramEpoch + 1) fb now = (true, e') ∧ Ready e' ∧
      e'.party = e.party.opened := by
  obtain ⟨s, hs, hb⟩ := h.sess
  obtain ⟨keys, s', hkeys, hb'⟩ := hb.datagramKeys P
  have hmax : max e.peer.dgramEpoch (e.peer.dgramEpoch + 1) = e.peer.dgramEpoch + 1 :=
    Nat.max_eq_right (Nat.le_succ _)
  unfold Entry.dgramOpen
  simp only [hs, hkeys, hmax]
  refine ⟨_, rfl, ⟨⟨s', ?_, ?_⟩, ?_, ?_⟩, ?_⟩
  · rw [Entry.dgramSetPath_peer]
  · rw [Entry.dgramSetPath_peer]
    exact hb'
  · rw [Entry.dgramSetPath_peer]
    exact hlt
  · intro d hd _
    rw [Entry.dgramSetPath_peer] at hd
    cases hd
    exact ⟨⟨rfl, rfl, rfl⟩, DatagramPath.noConfusion⟩
  · rw [Entry.party, Entry.dgramSetPath_peer]
    rfl

/-- The first offer for a channel answers it; a later one changes nothing. -/
theorem Ready.takeOffer (h : Ready e) {d : Dgram} (hd : e.peer.dgram = some d) {shift : Nat}
    (hshift : 7 ≤ shift ∧ shift ≤ 63) (cands : List Candidate) :
    Ready (e.takeOffer cfg shift cands) ∧
      (e.takeOffer cfg shift cands).party =
        { e.party with chan := some { d.chan with answered := true } } := by
  unfold Entry.takeOffer
  simp only [hd]
  cases hr : d.remote with
  | some cs =>
      refine ⟨h, ?_⟩
      simp [Entry.party, Dgram.chan, hd, hr]
  | none =>
      obtain ⟨hfresh, -⟩ := h.waiting d hd hr
      have hrange := cfg.rekeyShift_range
      have hconf : d.sess.configureRekeyShift (min cfg.rekeyShift shift) =
          (true, { d.sess with cfg := { d.sess.cfg with rekeyShift := min cfg.rekeyShift shift } }) := by
        unfold Session.configureRekeyShift
        rw [if_neg]
        simp only [hfresh.state, hfresh.sendCounter, hfresh.received]
        simp
        omega
      simp only [Option.isSome_none, Bool.false_eq_true, if_false, hconf, Bool.not_true]
      refine ⟨⟨h.sess, h.epoch_lt, ?_⟩, rfl⟩
      intro d' hd' hnone
      cases hd'
      cases hnone

/-- Where the session is up, small protocol records are always accepted. -/
theorem Ready.sendRecord (h : Ready e) {kind : UInt8} {body : Bytes}
    (hkind : kind = kDgramOffer ∨ kind = kDgramClose) (hlen : body.length ≤ 166) :
    ∃ e', e.sendRecord P kind body now [] = (true, [], e') ∧ Ready e' ∧
      e'.peer.dgram = e.peer.dgram ∧ e'.peer.dgramEpoch = e.peer.dgramEpoch := by
  obtain ⟨s, hs, hb⟩ := h.sess
  have hnot : ((kind = kMessageRecord || kind = kDgramOverTcp) : Bool) = false := by
    rcases hkind with rfl | rfl <;> decide
  have huser : ¬ kind < TcpSession.kFirstUserKind := by
    rcases hkind with rfl | rfl <;> decide
  have hroom : ¬ body.length > s.cfg.maxRecord := by
    have := hb.maxRecord
    omega
  have hsend : s.send P kind body now =
      (true, { s.sealRecord P kind body with lastSent := now }) := by
    unfold TcpSession.send
    rw [if_neg (by simp [hb.state, huser, hroom])]
  unfold Entry.sendRecord
  simp only [hnot, Bool.false_and, Bool.false_eq_true, if_false, hs, hsend, Bool.not_true,
    Entry.flushPeer]
  exact ⟨_, rfl, ⟨⟨_, rfl, ⟨hb.state, hb.maxRecord, hb.next⟩⟩, h.epoch_lt, h.waiting⟩, rfl, rfl⟩

/-- An operation the peer does not notice, or a move of the protocol. -/
inductive Moves (e e' : Entry) (sent : List Record) : Prop where
  | stay (hparty : e'.party = e.party) (hsent : sent = [])
  | act (notes : List Note) (hact : Act e.party e'.party notes)
      (hsent : List.Forall₂ Carries sent notes)

/-- A channel the entry holds is the one at its highest epoch. -/
def Current (e : Entry) : Prop := ∀ d ∈ e.peer.dgram, d.epoch = e.peer.dgramEpoch

theorem Ready.openDatagrams (h : Ready e) (fb : DatagramFallback) :
    Ready (e.openDatagrams P cfg fb now).2 ∧ Moves e (e.openDatagrams P cfg fb now).2 [] := by
  obtain ⟨s, hs, hb⟩ := h.sess
  unfold Entry.openDatagrams
  simp only [hs]
  rw [if_neg (by simp [hb.state])]
  rcases Decidable.em ((e.peer.dgram.any fun d => decide (d.path ≠ .failed)) = true) with
    hheld | hheld
  · rw [if_pos hheld]
    exact ⟨h, .stay rfl rfl⟩
  · rw [if_neg hheld]
    rcases Decidable.em (e.peer.dgramEpoch = 2 ^ 32 - 1) with hmax | hmax
    · rw [if_pos hmax]
      exact ⟨h, .stay rfl rfl⟩
    · rw [if_neg hmax]
      have hlt := h.epoch_lt
      obtain ⟨e', he', hready, hparty⟩ :=
        h.dgramOpen P cfg now (by omega) fb
      rw [he']
      refine ⟨hready, .act [] ?_ List.Forall₂.nil⟩
      rw [hparty]
      apply Act.open
      -- a channel that may be replaced has failed, so it had the peer's offer
      intro c hc
      obtain ⟨d, hd, rfl⟩ := Option.map_eq_some_iff.mp hc
      have hfailed : d.path = .failed := by simpa [hd] using hheld
      cases hr : d.remote with
      | none => exact absurd hfailed (h.waiting d hd hr).2
      | some cs => simp [Dgram.chan, hr]

theorem Ready.dgramDrop (h : Ready e) :
    Ready e.dgramDrop ∧ e.dgramDrop.party = e.party.dropped := by
  refine ⟨⟨?_, ?_, ?_⟩, ?_⟩
  · rw [Entry.dgramDrop_peer]
    exact h.sess
  · rw [Entry.dgramDrop_peer]
    exact h.epoch_lt
  · rw [Entry.dgramDrop_peer]
    intro d hd
    cases hd
  · rw [Entry.party, Entry.dgramDrop_peer]
    rfl

/-- The party is read off the channel and the highest epoch. -/
theorem Entry.party_congr {e e' : Entry} (hd : e'.peer.dgram = e.peer.dgram)
    (he : e'.peer.dgramEpoch = e.peer.dgramEpoch) : e'.party = e.party := by
  rw [Entry.party, Entry.party, hd, he]

theorem Ready.closeDatagrams (h : Ready e) (hcur : Current e)
    (hknown : ∀ d ∈ e.peer.dgram, d.offered = true ∨ d.remote.isSome = true) :
    Ready (e.closeDatagrams P now []).2.2 ∧
      Moves e (e.closeDatagrams P now []).2.2 (e.closeDatagrams P now []).1 := by
  unfold Entry.closeDatagrams
  cases hd : e.peer.dgram with
  | none => exact ⟨h, .stay rfl rfl⟩
  | some d =>
      have hepoch : d.epoch < 2 ^ 32 := by
        rw [hcur d hd]
        exact h.epoch_lt
      obtain ⟨e', he', hready, hdgram, hhigh⟩ :=
        h.sendRecord P now (Or.inr rfl : kDgramClose = _ ∨ _)
          (by simp [encodeU32] : (encodeU32 d.epoch).length ≤ 166)
      simp only [he', if_true]
      obtain ⟨hready', hparty⟩ := hready.dgramDrop
      refine ⟨hready', .act [.close d.epoch] ?_ (.cons (.close hepoch) .nil)⟩
      rw [hparty, Entry.party_congr hdgram hhigh]
      apply Act.close d.chan
      · simp [Entry.party, hd]
      · exact hknown d hd

theorem Ready.driveOffer (h : Ready e) (hcur : Current e) (udp : UdpView) :
    Ready (e.driveOffer P cfg udp now []).2.2 ∧
      Moves e (e.driveOffer P cfg udp now []).2.2 (e.driveOffer P cfg udp now []).1 := by
  obtain ⟨s, hs, hb⟩ := h.sess
  unfold Entry.driveOffer
  cases hd : e.peer.dgram with
  | none =>
      simp only [hs]
      exact ⟨h, .stay rfl rfl⟩
  | some d =>
      simp only [hs]
      rw [if_neg (by simp [hb.state])]
      rcases Decidable.em (Entry.offerDue d udp now = true) with hdue | hdue
      · rw [if_pos hdue]
        have hepoch : d.epoch < 2 ^ 32 := by
          rw [hcur d hd]
          exact h.epoch_lt
        have hbody : (Entry.offerBody cfg d udp).length ≤ 166 :=
          length_encodeDgramOffer d.epoch cfg.rekeyShift
            (if udp.ready then udp.candidates else [])
        obtain ⟨e', he', hready, hdgram, hhigh⟩ :=
          h.sendRecord P now (Or.inl rfl : kDgramOffer = _ ∨ _) hbody
        simp only [he', if_true]
        refine ⟨⟨hready.sess, hready.epoch_lt, ?_⟩,
          .act [.offer d.epoch] ?_ (.cons (.offer _ hepoch cfg.rekeyShift_range) .nil)⟩
        · intro d' hd' hnone
          simp only [Entry.markOffered, hdgram, hd, Option.map_some, Option.mem_def,
            Option.some.injEq] at hd'
          subst hd'
          exact h.waiting d hd hnone
        · have hparty : e'.markOffered.party =
              { e.party with chan := some { d.chan with offered := true } } := by
            simp only [Entry.party, Entry.markOffered, hdgram, hhigh, hd]
            rfl
          rw [hparty]
          apply Act.offer
          simp [Entry.party, hd]
      · rw [if_neg hdue]
        exact ⟨h, .stay rfl rfl⟩

theorem Ready.sendDatagramsOverTcp (h : Ready e) :
    Ready e.sendDatagramsOverTcp.2 ∧ Moves e e.sendDatagramsOverTcp.2 [] := by
  unfold Entry.sendDatagramsOverTcp
  cases hd : e.peer.dgram with
  | none => exact ⟨h, .stay rfl rfl⟩
  | some d =>
      simp only
      split
      · exact ⟨h, .stay rfl rfl⟩
      · split
        · exact ⟨h, .stay rfl rfl⟩
        · have hpeer : ∀ e' : Entry, e'.peer = { e.peer with dgram := some { d with overTcp := true } } →
              Ready e' ∧ Moves e e' [] := by
            intro e' he'
            refine ⟨⟨?_, ?_, ?_⟩, .stay ?_ rfl⟩
            · rw [he']
              exact h.sess
            · rw [he']
              exact h.epoch_lt
            · rw [he']
              intro d' hd' hnone
              cases hd'
              exact h.waiting d hd hnone
            · rw [Entry.party, Entry.party, he', hd]
              rfl
          apply hpeer
          split <;> rfl

theorem Ready.udpActs (h : Ready e) (path : DatagramPath) (sess : Session) :
    Ready (e.udpActs path sess) ∧ Moves e (e.udpActs path sess) [] := by
  unfold Entry.udpActs
  cases hd : e.peer.dgram with
  | none => exact ⟨h, .stay rfl rfl⟩
  | some d =>
      simp only
      rcases Decidable.em (d.remote.isNone = true) with hr | hr
      · rw [if_pos hr]
        exact ⟨h, .stay rfl rfl⟩
      · rw [if_neg hr]
        refine ⟨⟨?_, ?_, ?_⟩, .stay ?_ rfl⟩
        · rw [Entry.dgramSetPath_peer]
          exact h.sess
        · rw [Entry.dgramSetPath_peer]
          exact h.epoch_lt
        · rw [Entry.dgramSetPath_peer]
          intro d' hd' hnone
          cases hd'
          exact absurd (Option.isNone_iff_eq_none.mpr hnone) hr
        · rw [Entry.party, Entry.party, Entry.dgramSetPath_peer, hd]
          rfl

/-- A close drops the channel of its epoch. -/
theorem onRecord_close (e : Entry) {epoch : Nat} (hepoch : epoch < 2 ^ 32) :
    e.onRecord P cfg kDgramClose (encodeU32 epoch) now =
      match e.peer.dgram with
      | some d => if d.epoch = epoch then e.dgramDrop else e
      | none => e := by
  unfold Entry.onRecord
  rw [if_neg (by decide), if_neg (by decide), if_neg (by decide), if_pos rfl,
    decodeU32_encodeU32 hepoch]
  cases e.peer.dgram <;> rfl

/-- Where a note is heard, the party hears it, provided it does not skip an
epoch. -/
theorem Ready.onRecord (h : Ready e) (hcur : Current e) {r : Record} {n : Note}
    (hr : Carries r n) (hnext : n.epoch ≤ e.peer.dgramEpoch + 1) :
    Ready (e.onRecord P cfg r.1 r.2 now) ∧
      (e.onRecord P cfg r.1 r.2 now).party = e.party.hear n := by
  cases hr with
  | @offer epoch shift cands hepoch hshift =>
      have hrec : e.onRecord P cfg kDgramOffer (encodeDgramOffer epoch shift cands) now =
          e.dgramOnOffer P cfg (encodeDgramOffer epoch shift cands) now := by
        unfold Entry.onRecord
        rw [if_neg (by decide), if_pos rfl]
      simp only [hrec]
      unfold Entry.dgramOnOffer
      simp only [decodeDgramOffer_encodeDgramOffer hepoch hshift]
      simp only [Note.epoch] at hnext
      have hopened : e.peer.dgramEpoch < epoch → ∀ fb, ∃ e', e.dgramOpen P cfg epoch fb now =
          (true, e') ∧
          Ready (e'.takeOffer cfg shift ((cands.take kMaxCandidates).map Candidate.normal)) ∧
          (e'.takeOffer cfg shift ((cands.take kMaxCandidates).map Candidate.normal)).party =
            { high := epoch, chan := some { epoch := epoch, answered := true } } := by
        intro hlt fb
        have heq : epoch = e.peer.dgramEpoch + 1 := by omega
        obtain ⟨e', he', hready, hparty⟩ :=
          h.dgramOpen P cfg now (by omega) fb
        have hchan := congrArg Party.chan hparty
        obtain ⟨d, hd, hdc⟩ := Option.map_eq_some_iff.mp hchan
        have htake := hready.takeOffer cfg hd hshift
          ((cands.take kMaxCandidates).map Candidate.normal)
        rw [hparty, hdc] at htake
        rw [heq]
        exact ⟨e', he', htake⟩
      cases hd : e.peer.dgram with
      | none =>
          have hne : ∀ c ∈ e.party.chan, c.epoch ≠ epoch := by
            rw [Entry.party, hd]
            intro c hc
            cases hc
          rcases Nat.lt_or_ge e.peer.dgramEpoch epoch with hlt | hle
          · obtain ⟨e', he', htake⟩ := hopened hlt cfg.datagramFallback
            simp only [if_neg (Nat.not_le.mpr hlt), he']
            rw [hear_offer_new hlt]
            exact htake
          · simp only [if_pos hle]
            rw [hear_offer_other hle hne]
            exact ⟨h, rfl⟩
      | some d =>
          have hde := hcur d hd
          have hchan : e.party.chan = some d.chan := by rw [Entry.party, hd, Option.map_some]
          simp only
          rcases Nat.lt_trichotomy epoch d.epoch with hlt | heq | hgt
          · have hne : ∀ c ∈ e.party.chan, c.epoch ≠ epoch := by
              rw [hchan]
              intro c hc
              cases hc
              exact Nat.ne_of_gt hlt
            have hle : epoch ≤ e.party.high := Nat.le_of_lt (Nat.lt_of_lt_of_eq hlt hde)
            rw [if_pos hlt, hear_offer_other hle hne]
            exact ⟨h, rfl⟩
          · rw [if_neg (by omega), if_neg (by omega),
              hear_offer_held hchan heq.symm (heq ▸ Nat.le_of_eq hde)]
            exact h.takeOffer cfg hd hshift _
          · have hlt : e.peer.dgramEpoch < epoch := hde ▸ hgt
            obtain ⟨e', he', htake⟩ := hopened hlt d.fallback
            rw [if_neg (by omega), if_pos hgt, if_neg (Nat.not_le.mpr hlt), he',
              hear_offer_new hlt]
            exact htake
  | @close epoch hepoch =>
      simp only [onRecord_close P cfg now e hepoch]
      cases hd : e.peer.dgram with
      | none =>
          rw [hear_close_other (by rw [Entry.party, hd]; intro c hc; cases hc)]
          exact ⟨h, rfl⟩
      | some d =>
          have hchan : e.party.chan = some d.chan := by rw [Entry.party, hd, Option.map_some]
          simp only
          rcases Decidable.em (d.epoch = epoch) with heq | hne
          · rw [if_pos heq, hear_close_held hchan heq]
            exact h.dgramDrop
          · rw [if_neg hne, hear_close_other (by rw [hchan]; intro c hc; cases hc; exact hne)]
            exact ⟨h, rfl⟩

end Steps

/-! ## Runs

Steps of either side, and the delivery of either side's next record. -/

namespace DgramLink

variable (P : Primitives)

/-- The invariant of the link: each side is ready, and the two follow the
protocol with the notes their records carry. -/
structure LinkInv (l : DgramLink) : Prop where
  left : Ready l.left.entry
  right : Ready l.right.entry
  joined : ∃ q q', List.Forall₂ Carries l.toRight q ∧ List.Forall₂ Carries l.toLeft q' ∧
    Joined l.left.entry.party l.right.entry.party q q'

theorem LinkInv.flip {l : DgramLink} (h : LinkInv l) : LinkInv l.flip := by
  obtain ⟨q, q', hq, hq', hj⟩ := h.joined
  exact ⟨h.right, h.left, q', q, hq', hq, hj.symm⟩

theorem Started.ready {x : Side} (h : Started x) : Ready x.entry ∧ x.entry.party = {} := by
  obtain ⟨s, hs, hstate, hcfg, hnext⟩ := h.sess
  refine ⟨⟨⟨s, hs, hstate, ?_, ?_⟩, ?_, ?_⟩, ?_⟩
  · rw [hcfg]
    show 166 ≤ 2 ^ 20
    decide
  · exact Or.inr ⟨hnext, h.dgramEpoch⟩
  · rw [h.dgramEpoch]
    decide
  · rw [h.dgram]
    intro d hd
    cases hd
  · rw [Entry.party, h.dgram, h.dgramEpoch]
    rfl

theorem linkInv_start {x y : Side} (hx : Started x) (hy : Started y) : LinkInv ⟨x, y, [], []⟩ := by
  obtain ⟨hx, hpx⟩ := hx.ready
  obtain ⟨hy, hpy⟩ := hy.ready
  refine ⟨hx, hy, [], [], .nil, .nil, ?_⟩
  rw [hpx, hpy]
  exact Joined.init

/-- A side that acts for itself. -/
theorem LinkInv.of_moves {l : DgramLink} (h : LinkInv l) {x : Side} {sent : List Record}
    (hx : Ready x.entry ∧ Moves l.left.entry x.entry sent) :
    LinkInv ⟨x, l.right, l.toRight ++ sent, l.toLeft⟩ := by
  obtain ⟨q, q', hq, hq', hj⟩ := h.joined
  refine ⟨hx.1, h.right, ?_⟩
  cases hx.2 with
  | stay hparty hsent =>
      subst hsent
      rw [List.append_nil, hparty]
      exact ⟨q, q', hq, hq', hj⟩
  | act notes hact hsent =>
      exact ⟨q ++ notes, q', List.rel_append hq hsent, hq', hj.act hact⟩

theorem LinkInv.stepLeft {l : DgramLink} (h : LinkInv l) {op : DgramOp}
    (hok : ClosesKnown l (.left, op)) : LinkInv (l.stepLeft P op) := by
  obtain ⟨q, q', hq, hq', hj⟩ := h.joined
  have hcur : Current l.left.entry := by
    intro d hd
    have hchan : l.left.entry.party.chan = some d.chan := by
      rw [Entry.party, Option.mem_def.mp hd, Option.map_some]
    exact (hj.out.current _ hchan).1
  cases op with
  | openDatagrams fb now => exact h.of_moves (h.left.openDatagrams P _ now fb)
  | closeDatagrams now => exact h.of_moves (h.left.closeDatagrams P now hcur hok)
  | driveDgram udp now => exact h.of_moves (h.left.driveOffer P _ now hcur udp)
  | sendDatagramsOverTcp => exact h.of_moves h.left.sendDatagramsOverTcp
  | udpActs path sess => exact h.of_moves (h.left.udpActs path sess)
  | receive now =>
      unfold DgramLink.stepLeft Side.act
      cases hinbox : l.toLeft with
      | nil =>
          simp only [List.append_nil]
          exact ⟨h.left, h.right, q, q', hq, hinbox ▸ hq', hj⟩
      | cons r rest =>
          rw [hinbox] at hq'
          cases hq' with
          | @cons _ n _ q'' hrn hrest =>
              have hnext : n.epoch ≤ l.left.entry.peer.dgramEpoch + 1 := by
                have hclimbs := hj.back.climbs
                cases n with
                | offer e => exact hclimbs.1
                | close e => exact Nat.le_succ_of_le hclimbs.1
              obtain ⟨hready, hparty⟩ := h.left.onRecord P l.left.cfg now hcur hrn hnext
              simp only [List.append_nil]
              refine ⟨hready, h.right, q, q'', hq, hrest, ?_⟩
              simp only [hparty]
              exact hj.hear

theorem LinkInv.step {l : DgramLink} {op : Which × DgramOp} (hok : ClosesKnown l op)
    (h : LinkInv l) : LinkInv (l.step P op) := by
  obtain ⟨which, op⟩ := op
  cases which with
  | left => exact h.stepLeft P hok
  | right =>
      have hok' : ClosesKnown l.flip (.left, op) := by
        cases op <;> exact hok
      exact (h.flip.stepLeft P hok').flip

/-- The two sides agree in every quiet state of the invariant. -/
theorem LinkInv.agree {l : DgramLink} (h : LinkInv l) (hquiet : Quiet l) : Agree l := by
  obtain ⟨q, q', hq, hq', hj⟩ := h.joined
  obtain ⟨hr, hl, hoff, hoff'⟩ := hquiet
  rw [hr, List.forall₂_nil_left_iff] at hq
  rw [hl, List.forall₂_nil_left_iff] at hq'
  subst hq hq'
  have hoffered : ∀ {x : Side}, (∀ d ∈ x.entry.peer.dgram, d.offered = true) →
      ∀ c ∈ x.entry.party.chan, c.offered = true := by
    intro x hx c hc
    obtain ⟨d, hd, rfl⟩ := Option.map_eq_some_iff.mp hc
    exact hx d hd
  rcases hj.agree (hoffered hoff) (hoffered hoff') with
    ⟨hc, hd⟩ | ⟨c, d, hc, hd, hepoch, hca, hda⟩
  · exact Or.inl ⟨Option.map_eq_none_iff.mp hc, Option.map_eq_none_iff.mp hd⟩
  · obtain ⟨c', hc', rfl⟩ := Option.map_eq_some_iff.mp hc
    obtain ⟨d', hd', rfl⟩ := Option.map_eq_some_iff.mp hd
    exact Or.inr ⟨c', d', hc', hd', hepoch, hca, hda⟩

/-- In every run in which a channel is closed only once the peer knows of it,
the two sides agree whenever nothing is in flight and every channel was offered. -/
theorem datagram_channels_agree {x y : Side} (hx : Started x) (hy : Started y)
    (ops : List (Which × DgramOp))
    (hok : AllSteps ClosesKnown (step P) ⟨x, y, [], []⟩ ops)
    (hquiet : Quiet (run (step P) ⟨x, y, [], []⟩ ops)) :
    Agree (run (step P) ⟨x, y, [], []⟩ ops) := by
  have hinv : LinkInv (run (step P) ⟨x, y, [], []⟩ ops) :=
    run_invariant_of_allSteps (fun l o => LinkInv.step P) (linkInv_start hx hy) ops hok
  exact hinv.agree hquiet

/-- A side whose session with `dev` was just established. -/
def sampleSide (dev : DevId) (s : TcpSession) : Side where
  cfg := {}
  entry := { peer := { devId := dev, state := .connected, sess := some s, sockOpen := true } }

/-- Device 1, which dialed. -/
def sampleLeft : Side :=
  sampleSide (Vector.replicate 16 2) (TcpSession.sampleEnd TcpSession.sampleListener)

/-- Device 2, which answered. -/
def sampleRight : Side :=
  sampleSide (Vector.replicate 16 1) (TcpSession.sampleAnswerer TcpSession.sampleListener)

theorem started_sampleLeft : Started sampleLeft :=
  ⟨rfl, rfl, TcpSession.sampleEnd TcpSession.sampleListener, rfl, by decide +kernel⟩

theorem started_sampleRight : Started sampleRight :=
  ⟨rfl, rfl, TcpSession.sampleAnswerer TcpSession.sampleListener, rfl, by decide +kernel⟩

/-- Both sides open at once and their offers cross; device 1 closes, and device
2 opens again. -/
def sampleOps : List (Which × DgramOp) :=
  [(.left, .openDatagrams .tcp 10), (.right, .openDatagrams .relay 11), (.left, .driveDgram {} 12),
    (.right, .driveDgram {} 12), (.left, .receive 13), (.left, .closeDatagrams 14),
    (.right, .receive 15), (.right, .receive 16), (.right, .openDatagrams .tcp 17),
    (.right, .driveDgram {} 18), (.left, .receive 19), (.left, .driveDgram {} 20),
    (.right, .receive 21)]

/-- The link behind them. -/
def sampleOpened : DgramLink :=
  run (step Primitives.checksum) ⟨sampleLeft, sampleRight, [], []⟩ sampleOps

theorem datagram_channels_agree_sample :
    sampleOpened.left.entry.peer.dgram.isSome = true ∧ Agree sampleOpened := by
  have hknown : AllSteps ClosesKnown (step Primitives.checksum) ⟨sampleLeft, sampleRight, [], []⟩
      sampleOps := by
    decide +kernel
  have hquiet : Quiet (run (step Primitives.checksum) ⟨sampleLeft, sampleRight, [], []⟩
      sampleOps) := by
    decide +kernel
  refine ⟨by decide +kernel, ?_⟩
  exact datagram_channels_agree Primitives.checksum started_sampleLeft started_sampleRight
    sampleOps hknown hquiet

/-- Device 1 opens a channel and closes it before offering it; device 2 ignores
the close, opens its own channel at the same epoch, and device 1 drops the
offer. -/
def sampleStranded : DgramLink :=
  run (step Primitives.checksum) ⟨sampleLeft, sampleRight, [], []⟩
    [(.left, .openDatagrams .tcp 10), (.left, .closeDatagrams 11), (.right, .receive 12),
      (.right, .openDatagrams .tcp 13), (.right, .driveDgram {} 14), (.left, .receive 15)]

theorem unoffered_close_strands_the_peer :
    Started sampleLeft ∧ Started sampleRight ∧ Quiet sampleStranded ∧ ¬ Agree sampleStranded := by
  have hquiet : Quiet sampleStranded := by
    decide +kernel
  have hleft : sampleStranded.left.entry.peer.dgram = none := by
    decide +kernel
  have hright : sampleStranded.right.entry.peer.dgram.isSome = true := by
    decide +kernel
  refine ⟨started_sampleLeft, started_sampleRight, hquiet, ?_⟩
  rintro (⟨-, hd⟩ | ⟨c, -, hc, -⟩)
  · rw [hd] at hright
    cases hright
  · rw [hleft] at hc
    cases hc

end DgramLink

end UConnect.Node
