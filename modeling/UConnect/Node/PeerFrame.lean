/-
  Node/PeerFrame.lean --- what writing, records and datagram channels leave
  alone.

  Most of what happens to a peer concerns its socket, its session and its
  datagram channel, and says nothing of the attempt it is on or the state it
  shows.  `Minor` is that frame, proved here once for each such function.

  What may become of the session meanwhile is a parameter of `Minor`: a caller
  that has to know something of the session too takes the relation it needs, and
  the frames compose along the calls.
-/
import Mathlib.Order.Defs.Unbundled
import UConnect.Node.Datagrams
import UConnect.Session.TcpEvents

set_option autoImplicit false

namespace UConnect.Node

open UConnect.Foundation UConnect.Crypto UConnect.Wire TcpSession

/-- Is this the report of a lost session? -/
def Notice.isClosed : Notice → Bool
  | .peerClosed _ => true
  | _ => false

/-- The session went from `s` to `s'`, as `R` allows, or there is none on both
sides. -/
inductive Goes (R : TcpSession → TcpSession → Prop) : Option TcpSession → Option TcpSession → Prop
  | none : Goes R none none
  | some {s s' : TcpSession} (h : R s s') : Goes R (some s) (some s')

/-- Nothing but the session, the socket, the datagram channel and the notices
about them changed. -/
structure Minor (R : TcpSession → TcpSession → Prop) (e e' : Entry) : Prop where
  peer : ∃ ss so o dg ep, e'.peer =
    { e.peer with sess := ss, sockOpen := so, out := o, dgram := dg, dgramEpoch := ep }
  sess : Goes R e.peer.sess e'.peer.sess
  deferred : ∃ ns, e'.deferred = e.deferred ++ ns ∧ ns.all fun n => !n.isClosed
  effects : e'.effects = e.effects

section Relation

variable {R S : TcpSession → TcpSession → Prop} {e e' e'' : Entry}

theorem Minor.state (h : Minor R e e') : e'.peer.state = e.peer.state := by
  obtain ⟨_, _, _, _, _, hp⟩ := h.peer
  rw [hp]

theorem Minor.attempt (h : Minor R e e') : e'.peer.attempt = e.peer.attempt := by
  obtain ⟨_, _, _, _, _, hp⟩ := h.peer
  rw [hp]

theorem Minor.waitingIntro (h : Minor R e e') : e'.peer.waitingIntro = e.peer.waitingIntro := by
  obtain ⟨_, _, _, _, _, hp⟩ := h.peer
  rw [hp]

theorem Minor.devId (h : Minor R e e') : e'.peer.devId = e.peer.devId := by
  obtain ⟨_, _, _, _, _, hp⟩ := h.peer
  rw [hp]

theorem Goes.mono {o o' : Option TcpSession} (h : Goes R o o') (hRS : ∀ s s', R s s' → S s s') :
    Goes S o o' := by
  cases h with
  | none => exact .none
  | some hR => exact .some (hRS _ _ hR)

theorem Minor.mono (h : Minor R e e') (hRS : ∀ s s', R s s' → S s s') : Minor S e e' :=
  ⟨h.peer, h.sess.mono hRS, h.deferred, h.effects⟩

/-- A change of the fields the frame allows, with no notice. -/
theorem Minor.of_peer (hpeer : ∃ ss so o dg ep, e'.peer =
      { e.peer with sess := ss, sockOpen := so, out := o, dgram := dg, dgramEpoch := ep })
    (hsess : Goes R e.peer.sess e'.peer.sess) (hdeferred : e'.deferred = e.deferred)
    (heffects : e'.effects = e.effects) : Minor R e e' := by
  refine ⟨hpeer, hsess, ⟨[], ?_, rfl⟩, heffects⟩
  rw [hdeferred, List.append_nil]

variable [IsPreorder TcpSession R]

theorem Goes.refl (o : Option TcpSession) : Goes R o o := by
  cases o with
  | none => exact .none
  | some s => exact .some (refl_of R s)

theorem Goes.trans {o o' o'' : Option TcpSession} (h : Goes R o o') (h' : Goes R o' o'') :
    Goes R o o'' := by
  cases h with
  | none =>
      cases h'
      exact .none
  | some hab =>
      cases h' with
      | some hbc => exact .some (trans_of R hab hbc)

theorem Minor.refl (e : Entry) : Minor R e e :=
  .of_peer ⟨_, _, _, _, _, rfl⟩ (.refl _) rfl rfl

theorem Minor.trans (h : Minor R e e') (h' : Minor R e' e'') : Minor R e e'' := by
  obtain ⟨_, _, _, _, _, hp⟩ := h.peer
  obtain ⟨ss, so, o, dg, ep, hp'⟩ := h'.peer
  obtain ⟨ns, hns, hquiet⟩ := h.deferred
  obtain ⟨ns', hns', hquiet'⟩ := h'.deferred
  refine ⟨⟨ss, so, o, dg, ep, ?_⟩, h.sess.trans h'.sess, ⟨ns ++ ns', ?_, ?_⟩, ?_⟩
  · rw [hp', hp]
  · rw [hns', hns, List.append_assoc]
  · rw [List.all_append, hquiet, hquiet']
    rfl
  · rw [h'.effects, h.effects]

/-- A notice that is no report. -/
theorem Minor.defer (e : Entry) {n : Notice} (hn : n.isClosed = false) :
    Minor R e (e.defer n) := by
  refine ⟨⟨_, _, _, _, _, rfl⟩, .refl _, ⟨[n], rfl, ?_⟩, rfl⟩
  simp [hn]

end Relation

/-! ## The two degrees of change to a session

A session whose datagram keys are taken is otherwise the same; one that is
written from or read may also end. -/

/-- State, events and attempt of the session are as they were. -/
structure Kept (s s' : TcpSession) : Prop where
  state : s'.state = s.state
  events : s'.events = s.events
  attempt : s'.attempt = s.attempt

theorem Kept.refl (s : TcpSession) : Kept s s := ⟨rfl, rfl, rfl⟩

theorem Kept.trans {s s' s'' : TcpSession} (h : Kept s s') (h' : Kept s' s'') : Kept s s'' :=
  ⟨h'.state.trans h.state, h'.events.trans h.events, h'.attempt.trans h.attempt⟩

instance : IsPreorder TcpSession Kept where
  refl := Kept.refl
  trans _ _ _ := Kept.trans

instance : IsPreorder TcpSession Advances where
  refl := Advances.refl
  trans _ _ _ := Advances.trans

theorem Kept.advances {s s' : TcpSession} (h : Kept s s') : Advances s s' :=
  .of_eq h.state h.events h.attempt

theorem kept_datagramKeys (P : Primitives) (s : TcpSession) (epoch : Nat) :
    Kept s (s.datagramKeys P epoch).2 := by
  have hiter : ∀ n, Kept s ((advanceExported P)^[n] s) := by
    intro n
    induction n with
    | zero => exact .refl s
    | succ n ih =>
        rw [Function.iterate_succ_apply']
        exact ih.trans ⟨rfl, rfl, rfl⟩
  unfold datagramKeys
  split
  · exact .refl s
  · exact (hiter _).trans ⟨rfl, rfl, rfl⟩

theorem kept_send (P : Primitives) (s : TcpSession) (kind : UInt8) (body : Bytes)
    (now : Instant) : Kept s (s.send P kind body now).2 := by
  unfold send
  split
  · exact .refl s
  · exact ⟨rfl, rfl, rfl⟩

/-- The session goes on, but not if it is still in its handshake. -/
structure Steady (s s' : TcpSession) : Prop where
  advances : Advances s s'
  kept : s.state = .handshaking → Kept s s'

instance : IsPreorder TcpSession Steady where
  refl s := ⟨.refl s, fun _ => .refl s⟩
  trans s s' _ h h' := by
    refine ⟨h.advances.trans h'.advances, fun hs => ?_⟩
    have hk := h.kept hs
    exact hk.trans (h'.kept (hk.state.trans hs))

theorem Kept.steady {s s' : TcpSession} (h : Kept s s') : Steady s s' := ⟨h.advances, fun _ => h⟩

theorem Minor.steady {e e' : Entry} (h : Minor Kept e e') : Minor Steady e e' :=
  h.mono fun _ _ hkept => hkept.steady

theorem Minor.advances {e e' : Entry} (h : Minor Steady e e') : Minor Advances e e' :=
  h.mono fun _ _ hsteady => hsteady.advances

/-- What goes on with a session past its handshake. -/
theorem Minor.steady_of_past {e e' : Entry} (h : Minor Advances e e')
    (hpast : ∀ s ∈ e.peer.sess, s.state ≠ .handshaking) : Minor Steady e e' := by
  refine ⟨h.peer, ?_, h.deferred, h.effects⟩
  have hsess := h.sess
  generalize e'.peer.sess = o' at hsess ⊢
  generalize e.peer.sess = o at hsess hpast ⊢
  cases hsess with
  | none => exact .none
  | some hadv => exact .some ⟨hadv, fun hhs => absurd hhs (hpast _ rfl)⟩

/-! ## The channel

Functions on the channel leave the attempt and the state the peer shows. -/

namespace Entry

variable (P : Primitives) (cfg : NodeConfig) (e : Entry) (now : Instant)

theorem dgramSetPath_minor (p : DatagramPath) : Minor Kept e (e.dgramSetPath p) := by
  unfold dgramSetPath
  cases hd : e.peer.dgram with
  | none => exact .defer e rfl
  | some d =>
      simp only
      split
      · exact .refl e
      · have hmid : Minor Kept e
            { e with peer := { e.peer with dgram := some { d with path := p } } } :=
          .of_peer ⟨_, _, _, _, _, rfl⟩ (.refl _) rfl rfl
        split
        · exact hmid
        · exact hmid.trans (.defer _ rfl)

theorem dgramDrop_minor : Minor Kept e e.dgramDrop := by
  unfold dgramDrop
  split
  · exact .refl e
  · refine Minor.trans ?_ (dgramSetPath_minor _ _)
    exact .of_peer ⟨_, _, _, _, _, rfl⟩ (.refl _) rfl rfl

theorem dgramOpen_minor (epoch : Nat) (fb : DatagramFallback) :
    Minor Kept e (dgramOpen P cfg e epoch fb now).2 := by
  unfold dgramOpen
  cases hs : e.peer.sess with
  | none => exact .refl e
  | some s =>
      have hgoes : Goes Kept e.peer.sess (some (s.datagramKeys P epoch).2) := by
        rw [hs]
        exact .some (kept_datagramKeys P s epoch)
      simp only
      cases hkeys : (s.datagramKeys P epoch).1 with
      | none => exact .of_peer ⟨_, _, _, _, _, rfl⟩ hgoes rfl rfl
      | some keys =>
        simp only
        refine Minor.trans ?_ (dgramSetPath_minor _ _)
        exact .of_peer ⟨_, _, _, _, _, rfl⟩ hgoes rfl rfl

theorem takeOffer_minor (shift : Nat) (cands : List Candidate) :
    Minor Kept e (takeOffer cfg e shift cands) := by
  unfold takeOffer
  cases hd : e.peer.dgram with
  | none => exact .refl e
  | some d =>
      simp only
      split
      · exact .refl e
      · split
        · exact .refl e
        · exact .of_peer ⟨_, _, _, _, _, rfl⟩ (.refl _) rfl rfl

/-- A channel is opened, and if that worked the offer is taken. -/
theorem openAndTake_minor (epoch : Nat) (fb : DatagramFallback) (shift : Nat)
    (cands : List Candidate) :
    Minor Kept e (if !(dgramOpen P cfg e epoch fb now).1 then (dgramOpen P cfg e epoch fb now).2
      else takeOffer cfg (dgramOpen P cfg e epoch fb now).2 shift cands) := by
  have hopen := dgramOpen_minor P cfg e now epoch fb
  split
  · exact hopen
  · exact hopen.trans (takeOffer_minor _ _ _ _)

theorem dgramOnOffer_minor (body : Bytes) : Minor Kept e (dgramOnOffer P cfg e body now) := by
  unfold dgramOnOffer
  split
  · exact .refl e
  · rename_i epoch shift cands _
    split
    · split
      · exact .refl e
      · split
        · split
          · exact .refl e
          · exact openAndTake_minor P cfg e now _ _ _ _
        · exact takeOffer_minor _ _ _ _
    · split
      · exact .refl e
      · exact openAndTake_minor P cfg e now _ _ _ _

/-- No record says anything about the attempt, the state or the table of
attempts. -/
theorem onRecord_minor (kind : UInt8) (body : Bytes) :
    Minor Kept e (e.onRecord P cfg kind body now) := by
  unfold onRecord
  split
  · exact .defer e rfl
  · split
    · exact dgramOnOffer_minor P cfg e now body
    · split
      · split
        · exact .defer e rfl
        · exact .refl e
      · split
        · split
          · split
            · exact dgramDrop_minor e
            · exact .refl e
          · exact .refl e
        · exact .refl e

theorem markOffered_minor : Minor Kept e e.markOffered :=
  .of_peer ⟨_, _, _, _, _, rfl⟩ (.refl _) rfl rfl

theorem udpActs_minor (path : DatagramPath) (sess : Session) :
    Minor Kept e (e.udpActs path sess) := by
  unfold udpActs
  split
  · exact .refl e
  · split
    · exact .refl e
    · refine Minor.trans ?_ (dgramSetPath_minor _ _)
      exact .of_peer ⟨_, _, _, _, _, rfl⟩ (.refl _) rfl rfl

theorem sendDatagramsOverTcp_minor : Minor Kept e e.sendDatagramsOverTcp.2 := by
  unfold sendDatagramsOverTcp
  cases hd : e.peer.dgram with
  | none => exact .refl e
  | some d =>
      simp only
      split
      · exact .refl e
      · split
        · exact .refl e
        · have hmid : Minor Kept e
              { e with peer := { e.peer with dgram := some { d with overTcp := true } } } :=
            .of_peer ⟨_, _, _, _, _, rfl⟩ (.refl _) rfl rfl
          split
          · exact hmid.trans (.defer _ rfl)
          · exact hmid

theorem openDatagrams_minor (fb : DatagramFallback) :
    Minor Kept e (e.openDatagrams P cfg fb now).2 := by
  unfold openDatagrams
  split
  · exact .refl e
  · split
    · exact .refl e
    · split
      · exact .refl e
      · split
        · exact .refl e
        · exact dgramOpen_minor P cfg e now _ _

/-! ## The socket

So do functions that write. -/

theorem flushPeer_minor (rs : List SendResult) : Minor Advances e (flushPeer rs e).2 := by
  induction rs generalizing e with
  | nil => exact .refl e
  | cons r rs ih =>
      unfold flushPeer
      split
      · exact .refl e
      · split
        · refine .of_peer ⟨_, _, _, _, _, rfl⟩ ?_ rfl rfl
          -- the session hears of the failed write
          cases hs : e.peer.sess with
          | none => exact .none
          | some s => exact .some (advances_onEof s)
        · split
          · exact .refl e
          · refine Minor.trans ?_ (ih _)
            exact .of_peer ⟨_, _, _, _, _, rfl⟩ (.refl _) rfl rfl

/-- What the session has to say joins the bytes to write. -/
def queueOutput (e : Entry) (s : TcpSession) : Entry :=
  { e with peer := { e.peer with sess := some s.takeOutput.2, out := e.peer.out ++ s.out } }

theorem queueOutput_minor {s s' : TcpSession} (hs : e.peer.sess = some s) (h : Advances s s') :
    Minor Advances e (e.queueOutput s') := by
  refine .of_peer ⟨_, _, _, _, _, rfl⟩ ?_ rfl rfl
  rw [hs]
  exact .some (h.trans (.of_eq rfl rfl rfl))

/-- A record is sent on a session that is up only. -/
theorem sendRecord_minor (kind : UInt8) (body : Bytes) (io : List SendResult) :
    Minor Steady e (e.sendRecord P kind body now io).2.2 := by
  unfold sendRecord
  simp only
  split
  · exact .refl e
  · cases hs : e.peer.sess with
    | none => exact .refl e
    | some s =>
        simp only
        split
        · exact .refl e
        · rename_i hsent
          have hqueue := queueOutput_minor e hs (advances_send P s now kind body)
          refine Minor.steady_of_past (hqueue.trans (flushPeer_minor _ io)) ?_
          intro s' hs' hhs
          rw [hs] at hs'
          cases hs'
          simp [send, hhs] at hsent

theorem closeDatagrams_minor (io : List SendResult) :
    Minor Steady e (e.closeDatagrams P now io).2.2 := by
  unfold closeDatagrams
  split
  · exact .refl e
  · simp only
    exact (sendRecord_minor P e now _ _ io).trans (dgramDrop_minor _).steady

theorem driveOffer_minor (udp : UdpView) (io : List SendResult) :
    Minor Steady e (e.driveOffer P cfg udp now io).2.2 := by
  unfold driveOffer
  split
  · split
    · exact .refl e
    · split
      · simp only
        exact (sendRecord_minor P e now _ _ io).trans (markOffered_minor _).steady
      · exact .refl e
  · exact .refl e

end Entry

end UConnect.Node
