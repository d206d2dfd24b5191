/-
  Node/Reports.lean --- when a lost session is reported.

  Source: src/api/node.cpp, `tick`, `drive_peer`, `flush_peer`, `send_record`
  and `disconnect_peer`.

  The life of one peer, as its callbacks see it.  A session that is lost is
  reported by the event loop of `drive_peer`, which polls the session's last
  event.  What ends a session behind that loop is missed: `flush_peer` at the
  end of `drive_peer` tells the session of a failed write, and the session is
  dropped with its event unread.  The peer stays `Connected` for good.
  `lost_sessions_reported` says what else can go wrong, and that nothing else
  does.
-/
import UConnect.Foundation.Run
import UConnect.Node.DriveFrame

set_option autoImplicit false

namespace UConnect.Node

open UConnect.Foundation UConnect.Crypto UConnect.Wire

/-! ## One peer through the life of a node

A peer that is there or not, and what the node and the application do with it. -/

/-- A peer's place in the map: the peer while it is there, and everything that
was ever queued or logged for it. -/
structure Slot where
  devId : DevId
  peer : Option Peer := none
  deferred : List Notice := []
  effects : List Effect := []

/-- What the loop does with the peer before it drives it. -/
inductive LoopAct where
  /-- An introduction arrives. -/
  | relayed (env : Env) (attempt : AttemptNonce) (cands : List Candidate) (io : Io)
  /-- `drive_pending` found a connection for the peer. -/
  | startSession (env : Env) (c : Entry.Connection) (io : Io)
  /-- The server refuses a relay. -/
  | relayRefused
  /-- A discovery reply names the peer, and connects. -/
  | discovered (env : Env) (cands : List Candidate) (stale : Bool)
  /-- The topic has too many peers behind a discovery reply, and
  `trim_peer_cache` drops this one if it is idle. -/
  | trim
  /-- Punching, relaying or a packet changes the datagram channel. -/
  | udpActs (path : DatagramPath) (sess : Session)

/-- What happens to a peer.  A tick is what its loop did with the peer, then
`drive_peer`, then `drive_dgram`, and last `trim_peer_cache`; `trims` says that
the topic has too many peers and that this one is among the oldest. -/
inductive PeerOp where
  | tick (acts : List LoopAct) (env : Env) (io : Io) (udp : UdpView) (offer : List SendResult)
      (trims : Bool)
  /-- `peers` or `resolve` name the peer. -/
  | learn (cands : List Candidate)
  | connect (env : Env)
  | disconnect (reason : UInt16) (sends : List SendResult)
  /-- `send`, or a datagram sent over TCP. -/
  | send (kind : UInt8) (body : Bytes) (now : Instant) (sends : List SendResult)
  | openDatagrams (cfg : NodeConfig) (fb : DatagramFallback) (now : Instant)
  | closeDatagrams (now : Instant) (sends : List SendResult)
  | sendDatagramsOverTcp
  /-- `peers` or `resolve` have named others, and `trim_peer_cache` drops the
  peer. -/
  | trim

namespace Slot

variable (P : Primitives)

/-- The peer's entry, made if it is not there. -/
def entry (s : Slot) : Entry where
  peer := s.peer.getD { devId := s.devId }
  deferred := s.deferred
  effects := s.effects

/-- The slot with an entry written back. -/
def put (s : Slot) (e : Entry) : Slot :=
  { s with peer := some e.peer, deferred := e.deferred, effects := e.effects }

/-- Work on a peer that is there. -/
def modify (s : Slot) (f : Entry → Entry) : Slot :=
  if s.peer.isNone then s else s.put (f s.entry)

/-- What `trim_peer_cache` does with a peer it has chosen: only an idle one may
go. -/
def trim (s : Slot) : Slot :=
  if s.peer.any fun p => p.sess.isNone && p.attempt.isNone && p.retryAt = 0 then
    { s with peer := none }
  else s

/-- One act of the loop. -/
def loopAct (s : Slot) : LoopAct → Slot
  | .relayed env attempt cands io =>
      -- an introduction that is not admitted does not make an entry
      if env.self.isNone || !canAdmit env s.entry.peer then s
      else s.put (s.entry.onRelayed P env attempt cands io)
  | .startSession env c io =>
      s.modify fun e => if e.peer.sess.isSome then e else e.startSession P env c io
  | .relayRefused =>
      s.modify fun e => if e.peer.sess.isNone then e.endAttempt.setPeerState .failed else e
  | .discovered env cands stale =>
      let e := s.entry
      let e := { e with peer := { e.peer with cands := cands } }
      s.put (if stale then e else e.beginConnect env)
  | .trim => s.trim
  | .udpActs path sess => s.modify fun e => e.udpActs path sess

/-- `drive_peer` and `drive_dgram`. -/
def drive (s : Slot) (env : Env) (io : Io) (udp : UdpView) (offer : List SendResult) : Slot :=
  s.modify fun e => ((e.drivePeer P env io).driveOffer P env.cfg udp env.now offer).2.2

/-- One step.  What the loop does to other peers does not concern this one, so
each peer takes its steps by itself. -/
def step (s : Slot) : PeerOp → Slot
  | .tick acts env io udp offer trims =>
      let s := (run (loopAct P) s acts).drive P env io udp offer
      if trims then s.trim else s
  | .learn cands =>
      let e := s.entry
      s.put { e with peer := { e.peer with cands := cands } }
  | .connect env => s.modify fun e => e.beginConnect env
  | .disconnect reason sends =>
      { s.modify (fun e => e.disconnectPeer P reason sends) with peer := none }
  | .send kind body now sends => s.modify fun e => (e.sendRecord P kind body now sends).2.2
  | .openDatagrams cfg fb now => s.modify fun e => (e.openDatagrams P cfg fb now).2
  | .closeDatagrams now sends => s.modify fun e => (e.closeDatagrams P now sends).2.2
  | .sendDatagramsOverTcp => s.modify fun e => e.sendDatagramsOverTcp.2
  | .trim => s.trim

/-! ## What is reported

How often the peer was said to be gone, against how often a session was up. -/

/-- The number of `on_peer_closed` notifications. -/
def reports (ds : List Notice) : Nat := ds.countP Notice.isClosed

/-- The number of sessions that reached `Established`. -/
def sessions (fs : List Effect) : Nat :=
  fs.countP fun
    | .established _ => true
    | _ => false

/-- Is the peer's present session up? -/
def up (s : Slot) : Bool :=
  s.peer.any fun p => p.sess.any fun t => t.state = .established

/-- A peer that is `Connected` has a session that is up, and every session that
was up and is no longer was reported once. -/
def Reported (s : Slot) : Prop :=
  (∀ p ∈ s.peer, p.state = .connected → ∃ t ∈ p.sess, t.state = .established) ∧
    reports s.deferred + (if s.up then 1 else 0) = sessions s.effects

end Slot

/-! ## The writes that lose a session

The two places where an event stays unread, as conditions on the state before
them. -/

namespace Entry

variable (P : Primitives)

/-- The session is up when `drive_peer` comes to write, and the write fails. -/
def drivePeerLoses (env : Env) (e : Entry) (io : Io) : Bool :=
  e.peer.sess.any fun s =>
    let e := e.driveEvents P env s io.recvs
    e.peer.sess.any fun s =>
      decide (s.state = .established) && (e.queueOutput s).writeFails io.sends

/-- The session is up when `drive_dgram` writes its offer, and the write fails. -/
def offerLoses (cfg : NodeConfig) (e : Entry) (udp : UdpView) (now : Instant)
    (offer : List SendResult) : Bool :=
  e.peer.sess.any fun s => e.peer.dgram.any fun d =>
    decide (s.state = .established) && offerDue d udp now &&
      (e.queueOutput (s.send P kDgramOffer (offerBody cfg d udp) now).2).writeFails offer

end Entry

namespace Slot

variable (P : Primitives)

/-- One act of the loop loses no session unseen: it does not write to a socket
that fails while the session is up, and no introduction takes the peer of a
session whose end has not been polled. -/
def ActSound (s : Slot) : LoopAct → Prop
  | .relayed env attempt cands io =>
      ∀ t ∈ s.entry.peer.sess, t.state ≠ .closed ∧ (t.state = .established →
        ((s.entry.withCands cands).keepIntro P env t attempt).drivePeerLoses P env io = false)
  | .startSession env c io =>
      ∀ self ∈ env.self, (s.entry.beginSession P env self c).drivePeerLoses P env io = false
  | _ => True

instance ActSound.decidable (s : Slot) : (a : LoopAct) → Decidable (ActSound P s a)
  | .relayed .. => Option.decidableForallMem s.entry.peer.sess
  | .startSession env _ _ => Option.decidableForallMem env.self
  | .relayRefused => inferInstanceAs (Decidable True)
  | .discovered .. => inferInstanceAs (Decidable True)
  | .trim => inferInstanceAs (Decidable True)
  | .udpActs .. => inferInstanceAs (Decidable True)

/-- A tick loses no session unseen. -/
def Sound (s : Slot) : PeerOp → Prop
  | .tick acts env io udp offer _ =>
      AllSteps (ActSound P) (loopAct P) s acts ∧
        let e := (run (loopAct P) s acts).entry
        e.drivePeerLoses P env io = false ∧
          (e.drivePeer P env io).offerLoses P env.cfg udp env.now offer = false
  | _ => True

instance Sound.decidable (s : Slot) : (op : PeerOp) → Decidable (Sound P s op)
  | .tick .. => inferInstanceAs (Decidable (AllSteps _ _ _ _ ∧ _ ∧ _))
  | .learn .. => inferInstanceAs (Decidable True)
  | .connect .. => inferInstanceAs (Decidable True)
  | .disconnect .. => inferInstanceAs (Decidable True)
  | .send .. => inferInstanceAs (Decidable True)
  | .openDatagrams .. => inferInstanceAs (Decidable True)
  | .closeDatagrams .. => inferInstanceAs (Decidable True)
  | .sendDatagramsOverTcp => inferInstanceAs (Decidable True)
  | .trim => inferInstanceAs (Decidable True)

end Slot

/-! ## The counts

Functions that neither report nor begin anything. -/

open Slot TcpSession

/-- Neither a session came up nor was one reported. -/
structure Silent (e e' : Entry) : Prop where
  reports : reports e'.deferred = reports e.deferred
  sessions : sessions e'.effects = sessions e.effects

theorem Silent.refl (e : Entry) : Silent e e := ⟨rfl, rfl⟩

theorem Silent.trans {e e' e'' : Entry} (h : Silent e e') (h' : Silent e' e'') : Silent e e'' :=
  ⟨h'.reports.trans h.reports, h'.sessions.trans h.sessions⟩

theorem Silent.with_peer {e e' : Entry} (h : Silent e e') (p : Peer) :
    Silent e { e' with peer := p } := ⟨h.reports, h.sessions⟩

@[simp] theorem reports_append (ds ds' : List Notice) :
    Slot.reports (ds ++ ds') = Slot.reports ds + Slot.reports ds' := List.countP_append

@[simp] theorem sessions_append (fs fs' : List Effect) :
    Slot.sessions (fs ++ fs') = Slot.sessions fs + Slot.sessions fs' := List.countP_append

theorem Minor.silent {R : TcpSession → TcpSession → Prop} {e e' : Entry} (h : Minor R e e') :
    Silent e e' := by
  obtain ⟨ns, hns, hquiet⟩ := h.deferred
  have hzero : Slot.reports ns = 0 := by
    rw [Slot.reports, List.countP_eq_zero]
    intro n hn
    simpa using List.all_eq_true.mp hquiet n hn
  refine ⟨?_, by rw [h.effects]⟩
  rw [hns, reports_append, hzero, Nat.add_zero]

/-- Effects that are not a session coming up. -/
theorem Silent.of_effects {e e' : Entry} {fs : List Effect} (hd : e'.deferred = e.deferred)
    (hf : e'.effects = e.effects ++ fs) (hquiet : Slot.sessions fs = 0) : Silent e e' := by
  refine ⟨by rw [hd], ?_⟩
  rw [hf, sessions_append, hquiet, Nat.add_zero]

section Silences

variable (env : Env) (e : Entry)

theorem silent_setPeerState (s : PeerState) : Silent e (e.setPeerState s) := by
  refine ⟨?_, by rw [Entry.setPeerState_effects]⟩
  rw [Entry.setPeerState_deferred, reports_append]
  split <;> rfl

theorem silent_endAttempt : Silent e e.endAttempt := by
  apply Silent.of_effects (Entry.endAttempt_deferred e) (Entry.endAttempt_effects e)
  cases e.peer.attempt <;> rfl

theorem silent_adoptAttempt (n : AttemptNonce) : Silent e (e.adoptAttempt env n) := by
  have hreports : Slot.reports (e.adoptAttempt env n).deferred = Slot.reports e.deferred := by
    unfold Entry.adoptAttempt
    split
    · exact (silent_setPeerState _ _).reports
    · rw [Entry.dialAll_deferred]
      exact (silent_setPeerState _ _).reports
  refine ⟨hreports, ?_⟩
  rcases Entry.adoptAttempt_effects env e n with h | h
  · rw [h, sessions_append]
    rfl
  · rw [h, sessions_append]
    rfl

theorem silent_driveReach : Silent e (e.driveReach env) := by
  have hd := Entry.driveReach_deferred env e
  rcases Entry.driveReach_effects env e with h | ⟨n, -, h⟩ | h
  · exact ⟨by rw [hd], by rw [h]⟩
  · exact .of_effects hd h rfl
  · exact .of_effects hd h rfl

end Silences

/-! ## What the callbacks have been told

The two counts differ by one while a session is up, and by nothing otherwise. -/

/-- The state and the counts of a peer whose session has been seen in state `v`. -/
structure Seen (v : TcpState) (e : Entry) : Prop where
  state : e.peer.state = .connected ↔ v = .established
  counts : reports e.deferred + (if v = .established then 1 else 0) = sessions e.effects

/-- Every session is accounted for: none, or the events not yet polled lead from
what has been told of it to what it is. -/
inductive Balanced (e : Entry) : Prop
  | idle (hs : e.peer.sess = none) (hseen : Seen .closed e)
  | live {t : TcpSession} {v : TcpState} (hs : e.peer.sess = some t)
      (hemits : Emits v t.events t.state) (hseen : Seen v e)

/-- As after `drive_peer`: the session has not ended, and its events have been
polled. -/
def Polled (e : Entry) : Prop :=
  ∀ t ∈ e.peer.sess, t.events = [] ∧ t.state ≠ .closed

section Balance

variable {e e' : Entry} {v w : TcpState}

theorem polled_none (hs : e.peer.sess = none) : Polled e := by
  intro t ht
  rw [hs] at ht
  cases ht

theorem Seen.silent (h : Seen v e) (hsilent : Silent e e')
    (hstate : e'.peer.state = e.peer.state) : Seen v e' := by
  refine ⟨?_, ?_⟩
  · rw [hstate]
    exact h.state
  · rw [hsilent.reports, hsilent.sessions]
    exact h.counts

/-- The peer goes from one state that is not `Connected` to another. -/
theorem Seen.apart (h : Seen v e) (hsilent : Silent e e') (hv : v ≠ .established)
    (hw : w ≠ .established) (hstate : e'.peer.state ≠ .connected) : Seen w e' := by
  refine ⟨iff_of_false hstate hw, ?_⟩
  rw [hsilent.reports, hsilent.sessions, if_neg hw, ← h.counts, if_neg hv]

theorem Seen.total (h : Seen v e) :
    reports e.deferred + (if e.peer.state = .connected then 1 else 0) = sessions e.effects := by
  have hcounts := h.counts
  rcases Decidable.em (v = .established) with hv | hv
  · rw [if_pos hv] at hcounts
    rw [if_pos (h.state.mpr hv)]
    exact hcounts
  · rw [if_neg hv] at hcounts
    rw [if_neg fun hup => hv (h.state.mp hup)]
    exact hcounts

/-- What concerns the socket and the channel leaves everything accounted for. -/
theorem Balanced.minor (h : Balanced e) (hminor : Minor Advances e e') : Balanced e' := by
  have hsess := hminor.sess
  cases h with
  | idle hs hseen =>
      rw [hs] at hsess
      cases hn : e'.peer.sess with
      | none => exact .idle hn (hseen.silent hminor.silent hminor.state)
      | some t =>
          rw [hn] at hsess
          cases hsess
  | @live t v hs hemits hseen =>
      rw [hs] at hsess
      cases hn : e'.peer.sess with
      | none =>
          rw [hn] at hsess
          cases hsess
      | some t' =>
          rw [hn] at hsess
          cases hsess with
          | some hadv =>
              obtain ⟨es, hes, hemits'⟩ := hadv.emits
              refine .live hn ?_ (hseen.silent hminor.silent hminor.state)
              rw [hes]
              exact hemits.append hemits'

end Balance

/-! ## Attempts of a peer without a session

An attempt comes and goes unreported. -/

section Attempts

variable {env : Env} {e : Entry} {v : TcpState}

theorem Seen.setPeerState (h : Seen v e) (hv : v ≠ .established) {s : PeerState}
    (hs : s ≠ .connected) : Seen v (e.setPeerState s) := by
  apply h.apart (silent_setPeerState e s) hv hv
  rw [Entry.setPeerState_peer]
  exact hs

theorem Seen.endAttempt (h : Seen v e) : Seen v e.endAttempt := by
  apply h.silent (silent_endAttempt e)
  rw [Entry.endAttempt_peer]

theorem Seen.adoptAttempt (h : Seen v e) (hv : v ≠ .established) (n : AttemptNonce) :
    Seen v (e.adoptAttempt env n) := by
  apply h.apart (silent_adoptAttempt env e n) hv hv
  rw [Entry.adoptAttempt_peer]
  exact PeerState.noConfusion

/-- Only a peer without a session is connected to. -/
theorem Balanced.beginConnect (h : Balanced e) : Balanced (e.beginConnect env) := by
  rcases Entry.beginConnect_cases env e with heq | ⟨hs, -, heq⟩
  · rw [heq]
    exact h
  · cases h with
    | live hs' => exact absurd (hs.symm.trans hs') nofun
    | idle _ hseen =>
        rw [heq]
        refine .idle ?_ ?_
        · rw [Entry.adoptAttempt_peer]
          exact hs
        · apply Seen.adoptAttempt _ TcpState.noConfusion
          exact hseen.silent (.of_effects rfl (Entry.log_effects e _) rfl) rfl

theorem Balanced.setFailed (h : Balanced e) (hs : e.peer.sess = none) :
    Balanced (e.setPeerState .failed) := by
  cases h with
  | live hs' => exact absurd (hs.symm.trans hs') nofun
  | idle _ hseen =>
      refine .idle ?_ (hseen.setPeerState TcpState.noConfusion PeerState.noConfusion)
      rw [Entry.setPeerState_peer]
      exact hs

theorem Balanced.endAttempt (h : Balanced e) : Balanced e.endAttempt := by
  have hsess : e.endAttempt.peer.sess = e.peer.sess := by rw [Entry.endAttempt_peer]
  cases h with
  | idle hs hseen => exact .idle (hsess.trans hs) hseen.endAttempt
  | live hs hemits hseen => exact .live (hsess.trans hs) hemits hseen.endAttempt

/-- Fields that neither the state nor the session is among. -/
theorem Balanced.of_peer {p : Peer} (h : Balanced e) (hs : p.sess = e.peer.sess)
    (hstate : p.state = e.peer.state) : Balanced { e with peer := p } := by
  cases h with
  | idle hnone hseen => exact .idle (hs.trans hnone) (hseen.silent ⟨rfl, rfl⟩ hstate)
  | live hsome hemits hseen =>
      exact .live (hs.trans hsome) hemits (hseen.silent ⟨rfl, rfl⟩ hstate)

theorem Balanced.driveRetry (h : Balanced e) : Balanced (e.driveRetry env) := by
  unfold Entry.driveRetry
  split
  · rename_i hretry
    simp only [Bool.and_eq_true, Option.isNone_iff_eq_none] at hretry
    have hzero : Balanced { e with peer := { e.peer with retryAt := 0 } } := h.of_peer rfl rfl
    have hconn := @Balanced.beginConnect env _ hzero
    simp only
    split
    · exact hconn.setFailed (sess_beginConnect hretry.1.1.1)
    · exact hconn
  · exact h

theorem Balanced.driveDial (h : Balanced e) (hs : e.peer.sess = none) :
    Balanced (e.driveDial env) := by
  obtain ⟨_, _, _, hpeer⟩ := Entry.driveReach_peer env e
  have hsess : (e.driveReach env).peer.sess = none := by
    rw [hpeer]
    exact hs
  have hreach : Balanced (e.driveReach env) := by
    cases h with
    | live hs' => exact absurd (hs.symm.trans hs') nofun
    | idle _ hseen =>
        refine .idle hsess (hseen.silent (silent_driveReach env e) ?_)
        rw [hpeer]
  unfold Entry.driveDial
  simp only
  split
  · apply hreach.endAttempt.setFailed
    rw [Entry.endAttempt_peer]
    exact hsess
  · exact hreach

end Attempts

/-! ## The event loop

Events are reported in their order, the end last. -/

section Events

variable (P : Primitives) (env : Env) {e : Entry} {t : TcpSession} {v w : TcpState}

theorem Seen.onEstablished (h : Seen .handshaking e) (hs : e.peer.sess = some t) :
    Seen .established e.onEstablished := by
  refine ⟨?_, ?_⟩
  · rw [Entry.onEstablished, Entry.setPeerState_peer]
    exact iff_of_true rfl rfl
  · have hreports : Slot.reports e.onEstablished.deferred = Slot.reports e.deferred := by
      unfold Entry.onEstablished
      rw [(silent_setPeerState _ _).reports]
      simp [hs]
    have hsessions : Slot.sessions e.onEstablished.effects = Slot.sessions e.effects + 1 := by
      unfold Entry.onEstablished
      simp only [hs]
      rw [(silent_setPeerState _ _).sessions, (silent_endAttempt _).sessions, Entry.log_effects,
        sessions_append]
      rfl
    have hcounts := h.counts
    rw [if_neg TcpState.noConfusion] at hcounts
    rw [hreports, hsessions, if_pos rfl, ← hcounts]

theorem onGone_silent (wasUp : Bool) :
    Silent e (e.onGone env wasUp) ∧ (e.onGone env wasUp).peer.state ≠ .connected := by
  have hend := silent_endAttempt e
  have hst : (if wasUp then PeerState.closed else .failed) ≠ .connected := by
    cases wasUp <;> simp
  have hset := hend.trans (silent_setPeerState e.endAttempt (if wasUp then .closed else .failed))
  rcases Entry.onGone_cases env e wasUp with ⟨r, ra, h⟩ | h | ⟨n, -, h⟩
  · rw [h]
    refine ⟨((hend.with_peer _).trans (silent_setPeerState _ _)).with_peer _, ?_⟩
    simp [Entry.dropIntro]
  · rw [h]
    refine ⟨hset.with_peer _, ?_⟩
    simpa [Entry.dropIntro] using hst
  · rw [h]
    refine ⟨(hset.trans (silent_adoptAttempt env _ n)).with_peer _, ?_⟩
    simp [Entry.dropIntro, Entry.adoptAttempt_peer]

/-- The one report of a session that was up, and none of one that was not. -/
theorem Seen.onClosed (h : Seen v e) (cause : CloseCause) (peerReason : Nat) :
    Seen .closed (e.onClosed env cause peerReason) := by
  have hdrop : Silent e e.dgramDrop := (Entry.dgramDrop_minor e).silent
  have hreport : Slot.reports (e.reportClosed cause peerReason).deferred =
      Slot.sessions (e.reportClosed cause peerReason).effects := by
    have htotal := h.total
    rw [Entry.reportClosed_effects, ← htotal]
    unfold Entry.reportClosed
    split
    · rw [Entry.defer_deferred, reports_append, hdrop.reports]
      rfl
    · exact hdrop.reports
  have hclosed : ∀ e' : Entry, Silent (e.reportClosed cause peerReason) e' →
      e'.peer.state ≠ .connected → Seen .closed e' := by
    intro e' hsilent hstate
    refine ⟨iff_of_false hstate TcpState.noConfusion, ?_⟩
    rw [hsilent.reports, hsilent.sessions, ← hreport]
    rfl
  rcases Entry.onClosed_cases env e cause peerReason with ⟨-, heq⟩ | heq
  · rw [heq]
    apply hclosed _ (silent_setPeerState _ _)
    rw [Entry.setPeerState_peer]
    exact PeerState.noConfusion
  · rw [heq]
    obtain ⟨hsilent, hstate⟩ := @onGone_silent env (e.reportClosed cause peerReason)
      (decide (e.peer.state = .connected))
    exact hclosed _ hsilent hstate

/-- Polling brings what has been told up to what the session is. -/
theorem Seen.onEvents {evs : List TcpEvent} (hemits : Emits v evs w) (hs : e.peer.sess = some t)
    (hseen : Seen v e) : Seen w (evs.foldl (Entry.onEvent P env) e) := by
  induction hemits generalizing e t with
  | nil st => exact hseen
  | established hrest ih => exact ih (sess_onEstablished.trans hs) (hseen.onEstablished hs)
  | record kind body hrest ih =>
      have hminor := Entry.onRecord_minor P env.cfg e env.now kind body
      have hsess := hminor.sess
      rw [hs] at hsess
      generalize hn : (e.onRecord P env.cfg kind body env.now).peer.sess = o at hsess
      cases hsess with
      | some _ => exact ih hn (hseen.silent hminor.silent hminor.state)
  | closed hlive cause peerReason => exact hseen.onClosed env cause peerReason

/-- After the event loop the callbacks know all there is to know. -/
theorem Seen.driveEvents (hemits : Emits v t.events t.state) (hseen : Seen v e)
    (recvs : List RecvResult) :
    Seen (polledSession P env t recvs).state (e.driveEvents P env t recvs) := by
  obtain ⟨es, hes, hemits'⟩ := (@advances_polledSession P env t recvs).emits
  have hall := hemits.append hemits'
  rw [← hes] at hall
  exact Seen.onEvents P env hall (rfl : ({ e with peer := { e.peer with
    sess := some { polledSession P env t recvs with events := [] } } } : Entry).peer.sess = some _)
    (hseen.silent ⟨rfl, rfl⟩ rfl)

end Events

/-! ## The writes

What follows the loop, and the failure that nobody polls. -/

section Writes

variable (P : Primitives) {e : Entry} {t : TcpSession}

/-- The end of `drive_peer`: whatever becomes of the write, a session that is
not up may go, and one that is stays. -/
theorem Seen.driveOutput (hs : e.peer.sess = some t) (hevents : t.events = [])
    (hseen : Seen t.state e) {sends : List SendResult}
    (hok : t.state = .established → (e.queueOutput t).writeFails sends = false) :
    Balanced (e.driveOutput sends) ∧ Polled (e.driveOutput sends) := by
  obtain ⟨hstate, -, hdeferred, heffects⟩ := @driveOutput_frame e sends
  have hsilent : Silent e (e.driveOutput sends) := ⟨by rw [hdeferred], by rw [heffects]⟩
  have hsess := sess_driveOutput hs sends
  split at hsess
  · rename_i hends
    -- what goes was not up
    have hdown : t.state ≠ .established := by
      intro hest
      rcases hends with hclosed | hfails
      · rw [hest] at hclosed
        cases hclosed
      · rw [hok hest] at hfails
        cases hfails
    refine ⟨.idle hsess ?_, polled_none hsess⟩
    apply hseen.apart hsilent hdown TcpState.noConfusion
    rw [hstate]
    exact fun hup => hdown (hseen.state.mp hup)
  · rename_i hstays
    have hevents' : t.takeOutput.2.events = [] := hevents
    refine ⟨.live (t := t.takeOutput.2) (v := t.state) hsess ?_ (hseen.silent hsilent hstate), ?_⟩
    · rw [hevents']
      exact .nil _
    · intro t' ht'
      rw [hsess] at ht'
      cases ht'
      exact ⟨hevents', fun hclosed => hstays (Or.inl hclosed)⟩

end Writes

/-! ## Driving a peer

The parts together. -/

section Driving

variable (P : Primitives) {env : Env} {e : Entry} {io : Io}

/-- `drive_peer` leaves every session accounted for and polled, if it does not
lose one that is up in its last write. -/
theorem Balanced.drivePeer (h : Balanced e) (hok : e.drivePeerLoses P env io = false) :
    Balanced (e.drivePeer P env io) ∧ Polled (e.drivePeer P env io) := by
  cases h with
  | idle hs hseen =>
      have hretry := @Balanced.driveRetry env e (.idle hs hseen)
      have hnone := @sess_driveRetry env e hs
      rcases drivePeer_of_none P io hs with heq | heq
      · rw [heq]
        exact ⟨hretry, polled_none hnone⟩
      · rw [heq]
        exact ⟨hretry.driveDial hnone, polled_none (sess_driveDial hnone)⟩
  | @live t v hs hemits hseen =>
      obtain ⟨t', hs', hevents, hstate, -⟩ := @sess_driveEvents P env e t io.recvs
      have hseen' := hseen.driveEvents P env hemits io.recvs
      rw [← hstate] at hseen'
      rw [drivePeer_of_sess P hs]
      apply Seen.driveOutput hs' hevents hseen'
      intro hest
      simpa [Entry.drivePeerLoses, hs, hs', hest] using hok

theorem Balanced.meetIntro (h : Balanced e) (hs : e.peer.sess = none) (self : DevId)
    (n : AttemptNonce) : Balanced (e.meetIntro env self n) := by
  unfold Entry.meetIntro
  split
  · exact h
  · cases h with
    | live hs' => exact absurd (hs.symm.trans hs') nofun
    | idle _ hseen =>
        refine .idle ?_ (hseen.adoptAttempt TcpState.noConfusion n)
        rw [Entry.adoptAttempt_peer]
        exact hs

/-- An introduction that is kept leaves the session to go on, or ends it with
its event queued. -/
theorem Balanced.keepIntro (h : Balanced e) {t : TcpSession} (hs : e.peer.sess = some t)
    (n : AttemptNonce) : Balanced (e.keepIntro P env t n) := by
  have hadv : Advances t (if env.now - t.lastRecv ≥ kLiveSession then t.onEof
      else t.keepalive P env.now) := by
    split
    · exact advances_onEof t
    · exact advances_keepalive P t env.now
  obtain ⟨es, hes, hemits'⟩ := hadv.emits
  cases h with
  | idle hs' => exact absurd (hs'.symm.trans hs) nofun
  | live hs' hemits hseen =>
      rw [hs] at hs'
      cases hs'
      refine .live rfl ?_ (hseen.silent ⟨rfl, rfl⟩ rfl)
      rw [hes]
      exact hemits.append hemits'

theorem Balanced.onRelayed (h : Balanced e) (n : AttemptNonce) (cands : List Candidate)
    (hok : ∀ t ∈ e.peer.sess, t.state ≠ .closed ∧ (t.state = .established →
      ((e.withCands cands).keepIntro P env t n).drivePeerLoses P env io = false)) :
    Balanced (e.onRelayed P env n cands io) := by
  have hcands : Balanced (e.withCands cands) := h.of_peer rfl rfl
  rcases Entry.onRelayed_cases P env e n cands io with
    heq | ⟨t, -, -, heq⟩ | ⟨self, -, hclosed, heq⟩ | ⟨t, hs, hest, heq⟩
  · rw [heq]
    exact h
  · rw [heq]
    exact hcands
  · rw [heq]
    refine hcands.meetIntro ?_ self n
    rw [Option.eq_none_iff_forall_not_mem]
    exact fun t ht => (hok t ht).1 (hclosed t ht)
  · rw [heq]
    exact ((hcands.keepIntro P hs n).drivePeer P ((hok t hs).2 hest)).1

theorem silent_beginSession (self : DevId) (c : Entry.Connection) :
    Silent e (e.beginSession P env self c) := by
  refine ⟨?_, by rw [Entry.beginSession_effects]⟩
  have hdrop := fun p : Peer => (Entry.dgramDrop_minor { e with peer := p }).silent.reports
  unfold Entry.beginSession
  simp only
  split
  · rw [(silent_setPeerState _ _).reports]
    exact hdrop _
  · rw [(silent_setPeerState _ _).reports]
    exact hdrop _

theorem Balanced.beginSession (h : Balanced e) (hs : e.peer.sess = none) (self : DevId)
    (c : Entry.Connection) : Balanced (e.beginSession P env self c) := by
  have hpeer := Entry.beginSession_peer P env e self c
  cases h with
  | live hs' => exact absurd (hs.symm.trans hs') nofun
  | idle _ hseen =>
      refine .live ?_ (@emits_heardSession P env self e.peer.devId c) ?_
      · rw [hpeer]
      · apply hseen.apart (silent_beginSession P self c)
        · exact TcpState.noConfusion
        · exact TcpState.noConfusion
        · rw [hpeer]
          exact PeerState.noConfusion

theorem silent_farewell (reason : UInt16) (sends : List SendResult) :
    Silent e (e.farewell P reason sends) := by
  unfold Entry.farewell
  split
  · exact .refl e
  · rename_i t _
    have hqueue : Silent e (e.queueOutput (t.close P reason)) := ⟨rfl, rfl⟩
    exact (hqueue.trans (Entry.flushPeer_minor _ sends).silent).with_peer _

/-- The end of a peer reports the session of a peer that is `Connected`. -/
theorem counts_disconnectPeer (reason : UInt16) (sends : List SendResult) :
    reports (e.disconnectPeer P reason sends).deferred =
        reports e.deferred + (if e.peer.state = .connected then 1 else 0) ∧
      sessions (e.disconnectPeer P reason sends).effects = sessions e.effects := by
  have hquiet : Silent e (e.farewell P reason sends).endAttempt.dgramDrop :=
    ((silent_farewell P reason sends).trans (silent_endAttempt _)).trans
      (Entry.dgramDrop_minor _).silent
  unfold Entry.disconnectPeer
  simp only
  generalize (e.farewell P reason sends).endAttempt.dgramDrop = e₂ at hquiet ⊢
  rcases Decidable.em (e.peer.state = .connected) with hup | hup
  · simp only [hup, decide_true, Bool.true_or, if_true]
    rw [(silent_setPeerState _ _).reports, (silent_setPeerState _ _).sessions,
      Entry.defer_deferred, reports_append, hquiet.reports]
    exact ⟨rfl, hquiet.sessions⟩
  · simp only [hup, decide_false, Bool.false_eq_true, if_false, Nat.add_zero]
    split
    · have hset := hquiet.trans (silent_setPeerState e₂ .closed)
      exact ⟨hset.reports, hset.sessions⟩
    · exact ⟨hquiet.reports, hquiet.sessions⟩

theorem Balanced.disconnectPeer (h : Balanced e) (reason : UInt16) (sends : List SendResult) :
    reports (e.disconnectPeer P reason sends).deferred =
      sessions (e.disconnectPeer P reason sends).effects := by
  obtain ⟨hreports, hsessions⟩ := @counts_disconnectPeer P e reason sends
  rw [hreports, hsessions]
  cases h with
  | idle _ hseen => exact hseen.total
  | live _ _ hseen => exact hseen.total

end Driving

/-! ## Runs

The life of a peer, with its channels, its trims and its ends. -/

namespace Slot

section Steps

variable (P : Primitives) {s : Slot}

@[simp] theorem entry_put (s : Slot) (e : Entry) : (s.put e).entry = e := rfl

theorem balanced_modify (h : Balanced s.entry) {f : Entry → Entry}
    (hf : Balanced (f s.entry)) : Balanced (s.modify f).entry := by
  unfold modify
  split
  · exact h
  · exact hf

/-- Peers that are not there have no session. -/
theorem sess_entry_of_none (hp : s.peer = none) : s.entry.peer.sess = none := by
  simp [entry, hp]

/-- What is trimmed has no session, so nothing of it is left to report. -/
theorem balanced_trim (h : Balanced s.entry) : Balanced s.trim.entry := by
  unfold trim
  split
  · rename_i hidle
    obtain ⟨p, hp, hfree⟩ := Option.any_eq_true _ _ |>.mp hidle
    simp only [Bool.and_eq_true, Option.isNone_iff_eq_none] at hfree
    cases h with
    | live hs =>
        simp only [entry, hp, Option.getD_some] at hs
        exact absurd (hfree.1.1.symm.trans hs) nofun
    | idle _ hseen => exact .idle rfl ⟨by simp [entry], hseen.counts⟩
  · exact h

theorem polled_trim (h : Polled s.entry) : Polled s.trim.entry := by
  unfold trim
  split
  · exact polled_none rfl
  · exact h

theorem balanced_loopAct (h : Balanced s.entry) {a : LoopAct} (hok : ActSound P s a) :
    Balanced (s.loopAct P a).entry := by
  cases a with
  | relayed env attempt cands io =>
      unfold loopAct
      simp only
      split
      · exact h
      · exact h.onRelayed P attempt cands hok
  | startSession env c io =>
      apply balanced_modify h
      split
      · exact h
      · rename_i hs
        unfold Entry.startSession
        cases hself : env.self with
        | none => exact h
        | some self =>
            have hnone : s.entry.peer.sess = none := by simpa using hs
            exact ((h.beginSession P hnone self c).drivePeer P (hok self hself)).1
  | relayRefused =>
      apply balanced_modify h
      split
      · rename_i hs
        apply h.endAttempt.setFailed
        rw [Entry.endAttempt_peer]
        simpa using hs
      · exact h
  | discovered env cands stale =>
      have hcands : Balanced (s.entry.withCands cands) := h.of_peer rfl rfl
      unfold loopAct
      simp only [entry_put]
      split
      · exact hcands
      · exact hcands.beginConnect
  | trim => exact balanced_trim h
  | udpActs path sess =>
      exact balanced_modify h (h.minor (Entry.udpActs_minor _ path sess).steady.advances)

/-- The offer leaves the session up, if its write does not fail. -/
theorem polled_driveOffer {e : Entry} {cfg : NodeConfig} {udp : UdpView} {now : Instant}
    {offer : List SendResult} (h : Polled e)
    (hok : e.offerLoses P cfg udp now offer = false) :
    Polled (e.driveOffer P cfg udp now offer).2.2 := by
  unfold Entry.driveOffer
  split
  · rename_i t d hs hd
    split
    · exact h
    · rename_i hest
      split
      · rename_i hdue
        have hwrite : (e.queueOutput (t.send P kDgramOffer (Entry.offerBody cfg d udp)
            now).2).writeFails offer = false := by
          simpa [Entry.offerLoses, hs, hd, hdue, Decidable.not_not.mp hest] using hok
        have hkept := kept_send P t kDgramOffer (Entry.offerBody cfg d udp) now
        have hsess := sess_flushPeer offer
          (e.queueOutput (t.send P kDgramOffer (Entry.offerBody cfg d udp) now).2)
        rw [hwrite, if_neg Bool.false_ne_true] at hsess
        unfold Entry.sendRecord
        simp only [hs]
        split
        · exact h
        · split
          · exact h
          · intro t' ht'
            change (Entry.flushPeer offer (e.queueOutput _)).2.peer.sess = some t' at ht'
            rw [hsess] at ht'
            cases ht'
            obtain ⟨hevents, hstate⟩ := h t hs
            exact ⟨hkept.events.trans hevents, fun hclosed => hstate (hkept.state ▸ hclosed)⟩
      · exact h
  · exact h

theorem balanced_tick (h : Balanced s.entry) {acts : List LoopAct} {env : Env} {io : Io}
    {udp : UdpView} {offer : List SendResult} {trims : Bool}
    (hok : Sound P s (.tick acts env io udp offer trims)) :
    Balanced (s.step P (.tick acts env io udp offer trims)).entry ∧
      Polled (s.step P (.tick acts env io udp offer trims)).entry := by
  obtain ⟨hacts, hdrive, hoffer⟩ := hok
  have hacted : Balanced (run (loopAct P) s acts).entry :=
    run_invariant_of_allSteps (I := fun s => Balanced s.entry)
      (fun _ _ hok h => balanced_loopAct P h hok) h acts hacts
  obtain ⟨hbal, hpolled⟩ := hacted.drivePeer P hdrive
  have hdriven : Balanced ((run (loopAct P) s acts).drive P env io udp offer).entry ∧
      Polled ((run (loopAct P) s acts).drive P env io udp offer).entry := by
    unfold drive modify
    split
    · rename_i hnone
      exact ⟨hacted, polled_none (sess_entry_of_none (by simpa using hnone))⟩
    · exact ⟨hbal.minor (Entry.driveOffer_minor P env.cfg _ env.now udp offer).advances,
        polled_driveOffer P hpolled hoffer⟩
  unfold step
  dsimp only
  split
  · exact ⟨balanced_trim hdriven.1, polled_trim hdriven.2⟩
  · exact hdriven

theorem balanced_step (h : Balanced s.entry) {op : PeerOp} (hok : Sound P s op) :
    Balanced (s.step P op).entry := by
  cases op with
  | tick acts env io udp offer trims => exact (balanced_tick P h hok).1
  | learn cands => exact h.of_peer rfl rfl
  | connect env => exact balanced_modify h h.beginConnect
  | disconnect reason sends =>
      refine .idle rfl ⟨by simp [entry, step], ?_⟩
      unfold step modify
      simp only
      split
      · -- there was no peer, and so nothing to report
        rename_i hnone
        cases h with
        | live hs => exact absurd ((sess_entry_of_none (by simpa using hnone)).symm.trans hs) nofun
        | idle _ hseen => exact hseen.counts
      · exact h.disconnectPeer P reason sends
  | send kind body now sends =>
      exact balanced_modify h (h.minor (Entry.sendRecord_minor P _ now kind body sends).advances)
  | openDatagrams cfg fb now =>
      exact balanced_modify h (h.minor (Entry.openDatagrams_minor P cfg _ now fb).steady.advances)
  | closeDatagrams now sends =>
      exact balanced_modify h (h.minor (Entry.closeDatagrams_minor P _ now sends).advances)
  | sendDatagramsOverTcp =>
      exact balanced_modify h (h.minor (Entry.sendDatagramsOverTcp_minor _).steady.advances)
  | trim => exact balanced_trim h

theorem reported_of_balanced (h : Balanced s.entry) (hpolled : Polled s.entry) : Reported s := by
  have hup : s.up = s.entry.peer.sess.any fun t => t.state = .established := by
    unfold up entry
    cases s.peer <;> rfl
  rw [Reported, hup]
  cases h with
  | idle hs hseen =>
      refine ⟨?_, ?_⟩
      · intro p hp hconn
        have : s.entry.peer = p := by simp [entry, Option.mem_def.mp hp]
        rw [← this] at hconn
        exact absurd (hseen.state.mp hconn) TcpState.noConfusion
      · rw [hs]
        exact hseen.counts
  | @live t v hs hemits hseen =>
      obtain ⟨hevents, -⟩ := hpolled t hs
      rw [hevents] at hemits
      cases hemits
      refine ⟨?_, ?_⟩
      · intro p hp hconn
        have hpeer : s.entry.peer = p := by simp [entry, Option.mem_def.mp hp]
        rw [← hpeer] at hconn ⊢
        exact ⟨t, hs, hseen.state.mp hconn⟩
      · have hcounts : reports s.deferred + (if t.state = .established then 1 else 0) =
            sessions s.effects := hseen.counts
        rw [hs]
        simpa using hcounts

end Steps

/-- The slot of a peer that was never heard of. -/
def fresh (dev : DevId) : Slot where
  devId := dev

theorem balanced_fresh (dev : DevId) : Balanced (fresh dev).entry :=
  .idle rfl ⟨by simp [entry, fresh], rfl⟩

end Slot

/-- In every run in which no tick loses a session unseen, after every tick a
peer that is `Connected` has a session that is up, and each session that was up
and ended has been reported once. -/
theorem lost_sessions_reported (P : Primitives) (dev : DevId) (ops : List PeerOp)
    (acts : List LoopAct) (env : Env) (io : Io) (udp : UdpView) (offer : List SendResult)
    (trims : Bool)
    (hok : AllSteps (Slot.Sound P) (Slot.step P) (Slot.fresh dev)
      (ops ++ [.tick acts env io udp offer trims])) :
    (run (Slot.step P) (Slot.fresh dev) (ops ++ [.tick acts env io udp offer trims])).Reported := by
  obtain ⟨hops, htick, -⟩ := allSteps_append.mp hok
  have hbal : Balanced (run (Slot.step P) (Slot.fresh dev) ops).entry :=
    run_invariant_of_allSteps (I := fun s => Balanced s.entry)
      (fun _ _ hok h => Slot.balanced_step P h hok) (Slot.balanced_fresh dev) ops hops
  rw [run_append]
  obtain ⟨hbal', hpolled⟩ := Slot.balanced_tick P hbal htick
  exact Slot.reported_of_balanced hbal' hpolled

namespace Slot

/-- Our own device, the larger of the two, and the peer. -/
def sampleSelf : DevId := Vector.replicate 16 9
/-- The peer's device. -/
def samplePeer : DevId := Vector.replicate 16 3
/-- The attempt the peer introduces itself under. -/
def sampleAttempt : AttemptNonce := Vector.replicate 16 5

/-- A node in a topic, at a time. -/
def sampleEnv (now : Instant) : Env where
  cfg := {}
  self := some sampleSelf
  now := now
  nonce := Vector.replicate 16 6

/-- The connection the peer dialed, with its message 1. -/
def sampleConnection : Entry.Connection where
  topic := Vector.replicate 16 1
  psk := none
  attempt := sampleAttempt
  received := (TcpSession.initiate Primitives.checksum {} (Vector.replicate 16 1) 0 none samplePeer
    sampleSelf sampleAttempt 0 (Vector.replicate 32 4) (Vector.replicate 16 8)).out
  random := Vector.replicate 32 7
  padding := Vector.replicate 16 0

/-- The peer introduces itself and connects; our answer cannot be written yet. -/
def sampleMeeting : PeerOp :=
  .tick [.relayed (sampleEnv 1) sampleAttempt [] {}, .startSession (sampleEnv 1) sampleConnection {}]
    (sampleEnv 1) {} {} [] false

/-- The peer's connection is reset. -/
def sampleReset (io : Io) : PeerOp := .tick [] (sampleEnv 2) io {} [] false

end Slot

/-- A reset that `recv` sees is reported. -/
theorem lost_sessions_reported_sample :
    AllSteps (Slot.Sound Primitives.checksum) (Slot.step Primitives.checksum)
        (Slot.fresh Slot.samplePeer) [Slot.sampleMeeting, Slot.sampleReset { recvs := [.failed] }] ∧
      (run (Slot.step Primitives.checksum) (Slot.fresh Slot.samplePeer)
        [Slot.sampleMeeting, Slot.sampleReset { recvs := [.failed] }]).Reported ∧
      (run (Slot.step Primitives.checksum) (Slot.fresh Slot.samplePeer)
        [Slot.sampleMeeting]).up = true := by
  have hok : AllSteps (Slot.Sound Primitives.checksum) (Slot.step Primitives.checksum)
      (Slot.fresh Slot.samplePeer)
      ([Slot.sampleMeeting] ++ [Slot.sampleReset { recvs := [.failed] }]) := by
    decide +kernel
  refine ⟨hok, ?_, by decide +kernel⟩
  exact lost_sessions_reported Primitives.checksum Slot.samplePeer [Slot.sampleMeeting] [] _ _ _ _ _
    hok

/-- A reset that the last write of `drive_peer` sees is not reported, and the
peer stays `Connected` without a session. -/
theorem failed_write_is_not_reported :
    ¬ (run (Slot.step Primitives.checksum) (Slot.fresh Slot.samplePeer)
        [Slot.sampleMeeting, Slot.sampleReset { sends := [.error] }]).Reported := by
  have hpeer : (run (Slot.step Primitives.checksum) (Slot.fresh Slot.samplePeer)
      [Slot.sampleMeeting, Slot.sampleReset { sends := [.error] }]).peer.map
        (fun p => (p.state, p.sess.isSome)) = some (.connected, false) := by
    decide +kernel
  obtain ⟨p, hp, hstate⟩ := Option.map_eq_some_iff.mp hpeer
  rintro ⟨hconn, -⟩
  obtain ⟨hup, hnone⟩ := Prod.mk.inj hstate
  obtain ⟨t, ht, -⟩ := hconn p hp hup
  rw [Option.mem_def.mp ht] at hnone
  cases hnone

end UConnect.Node
