/-
  Node/DgramGate.lean --- nothing happens on a datagram channel before the
  peer's offer.

  The offer sets the schedule of keys, by a call that refuses once a packet went
  either way.  So everything that could send or take a packet before it has to
  be shut: punching, falling back, the relay, keepalives, the application's own
  sends, and datagrams that come in.  `Waiting` says what is true of a channel
  until then; `Follows` what any function does to a channel it does not open,
  drop or take an offer for.
-/
import UConnect.Node.ChannelKeys
import UConnect.Node.DgramDrive

set_option autoImplicit false

namespace UConnect

open UConnect.Foundation UConnect.Crypto UConnect.Wire

/-! ## What calls and polls leave of a session

Any number of calls, as one step. -/

/-- A session after calls of its interface and polls of its events. -/
inductive Session.Reaches (P : Primitives) (s : Session) : Session → Prop where
  | refl : s.Reaches P s
  | step {t : Session} (h : s.Reaches P t) (op : Session.Op) : s.Reaches P (t.step P op)
  | poll {t : Session} (h : s.Reaches P t) : s.Reaches P { t with events := [] }

namespace Session.Reaches

variable {P : Primitives} {s t u : Session}

theorem trans (h : s.Reaches P t) (h' : t.Reaches P u) : s.Reaches P u := by
  induction h' with
  | refl => exact h
  | step _ op ih => exact .step ih op
  | poll _ ih => exact .poll ih

theorem setPath (s : Session) (path : Endpoint) (now : Instant) :
    s.Reaches P (s.setPath path now) := .step .refl (.setPath path now)

/-- What calls keep, and does not look at the events, is kept. -/
theorem keeps {I : Session → Prop} (hstep : ∀ s op, I s → I (s.step P op))
    (hpoll : ∀ s : Session, I s → I { s with events := [] }) (h : s.Reaches P t) (hs : I s) :
    I t := by
  induction h with
  | refl => exact hs
  | step _ op ih => exact hstep _ op ih
  | poll _ ih => exact hpoll _ ih

theorem sending {k : SymKey} (h : s.Reaches P t) (hs : Sending P k s) : Sending P k t :=
  h.keeps (fun _ op ht => ht.step op) (fun _ ht => ht.congr rfl fun hopen => ⟨hopen, rfl⟩) hs

theorem receiving {k : SymKey} (h : s.Reaches P t) (hs : Receiving P k s) : Receiving P k t :=
  h.keeps (fun _ op ht => ht.step op)
    (fun _ ht => ht.deaf ⟨rfl, fun hopen => ⟨hopen, rfl, rfl⟩⟩) hs

/-- No call changes the configuration. -/
theorem cfg_eq (h : s.Reaches P t) : t.cfg = s.cfg := by
  refine h.keeps (I := fun t => t.cfg = s.cfg) ?_ (fun _ ht => ht) rfl
  intro t op ht
  refine Session.step_receiving (I := fun t => t.cfg = s.cfg) ?_ ?_ ht op
  · intro t t' ht hdeaf
    exact (congrArg Prod.fst hdeaf.side).trans ht
  · intro t c ad ct now ht _
    exact (congrArg Prod.fst (t.sendSide_openPacket (P := P) c ad ct now).1).trans ht

end Session.Reaches

end UConnect

namespace UConnect.Node

open UConnect.Foundation UConnect.Crypto UConnect.Wire

/-! ## A channel before and behind the peer's offer

Before the offer no packet has gone either way; behind it the schedule stands. -/

/-- A channel that waits for the peer's offer: no packet went either way, and
nothing is under way that could send one. -/
structure Waiting (d : Dgram) : Prop where
  fresh : Untouched d.sess
  out : d.sess.out = []
  opened : d.sess.opened = []
  events : d.sess.events = []
  path : d.path = .none ∨ d.path = .opening
  punch : d.udp.punch = false
  relaying : d.udp.relaying = false

/-- Without the peer's offer a channel waits. -/
def Dgram.Gated (d : Dgram) : Prop := d.remote = none → Waiting d

/-- A channel some time later: the offer stands as it was, and the session only
moved if there is one. -/
structure Dgram.Follows (P : Primitives) (d d' : Dgram) : Prop where
  epoch : d'.epoch = d.epoch
  remote : d'.remote = d.remote
  reaches : d.sess.Reaches P d'.sess
  waiting : d.remote = none → Waiting d → Waiting d'

/-- A channel with the keys `k`, on which the two nodes' shifts make `shift`. -/
structure Keyed (P : Primitives) (k : DatagramKeys) (shift : Nat) (d : Dgram) : Prop where
  sending : Sending P k.send d.sess
  receiving : Receiving P k.recv d.sess
  gated : d.Gated
  agreed : d.remote.isSome = true → d.sess.cfg.rekeyShift = shift

namespace Dgram

variable {P : Primitives} {d d' d'' : Dgram}

theorem Follows.refl (d : Dgram) : d.Follows P d := ⟨rfl, rfl, .refl, fun _ h => h⟩

theorem Follows.trans (h : d.Follows P d') (h' : d'.Follows P d'') : d.Follows P d'' where
  epoch := h'.epoch.trans h.epoch
  remote := h'.remote.trans h.remote
  reaches := h.reaches.trans h'.reaches
  waiting hnone hw := h'.waiting (h.remote.trans hnone) (h.waiting hnone hw)

/-- Behind the peer's offer anything goes. -/
theorem Follows.of_remote (hlive : d.remote.isSome = true) (hepoch : d'.epoch = d.epoch)
    (hremote : d'.remote = d.remote) (hreach : d.sess.Reaches P d'.sess) : d.Follows P d' := by
  refine ⟨hepoch, hremote, hreach, fun hnone => ?_⟩
  rw [hnone] at hlive
  cases hlive

theorem Follows.gated (h : d.Follows P d') (hd : d.Gated) : d'.Gated := by
  intro hnone
  have hold : d.remote = none := h.remote.symm.trans hnone
  exact h.waiting hold (hd hold)

theorem Follows.keyed (h : d.Follows P d') {k : DatagramKeys} {shift : Nat}
    (hd : Keyed P k shift d) : Keyed P k shift d' where
  sending := h.reaches.sending hd.sending
  receiving := h.reaches.receiving hd.receiving
  gated := h.gated hd.gated
  agreed hsome := by
    rw [h.reaches.cfg_eq]
    exact hd.agreed (h.remote ▸ hsome)

/-- What a waiting channel does not do shows that the peer's offer is there. -/
theorem Gated.remote_of (h : d.Gated) (hnot : ¬ Waiting d) : d.remote.isSome = true := by
  cases hr : d.remote with
  | some cands => rfl
  | none => exact absurd (h hr) hnot

end Dgram

/-! ## What every function does to the channel

One lemma for each function, all of one form, so that the invariant of a side is
assembled from them. -/

/-- An entry some time later, on the channel it held. -/
structure Entry.Follows (P : Primitives) (e e' : Entry) : Prop where
  calls : e.Calls P e'
  high : e'.peer.dgramEpoch = e.peer.dgramEpoch
  held : Option.Rel (Dgram.Follows P) e.peer.dgram e'.peer.dgram

/-- The channel an entry holds waits, or has the peer's offer. -/
def Entry.Gated (e : Entry) : Prop := ∀ d ∈ e.peer.dgram, d.Gated

/-- The channel an entry holds has the peer's offer. -/
def Entry.Live (e : Entry) : Prop := ∀ d ∈ e.peer.dgram, d.remote.isSome = true

namespace Entry

variable {P : Primitives} {e e' e'' : Entry} {d d' : Dgram}

theorem Follows.trans (h : e.Follows P e') (h' : e'.Follows P e'') : e.Follows P e'' where
  calls := h.calls.trans h'.calls
  high := h'.high.trans h.high
  held := by
    have hheld := h.held
    have hheld' := h'.held
    revert hheld hheld'
    generalize e.peer.dgram = o, e'.peer.dgram = o', e''.peer.dgram = o''
    intro hheld hheld'
    cases hheld with
    | none =>
        cases hheld'
        exact .none
    | some hd =>
        cases hheld' with
        | some hd' => exact .some (hd.trans hd')

/-- A function that writes back the channel and nothing else of the peer. -/
theorem Follows.of_peer (hd : e.peer.dgram = some d)
    (hpeer : e'.peer = { e.peer with dgram := some d' }) (h : d.Follows P d') :
    e.Follows P e' := by
  refine ⟨.refl ?_, ?_, ?_⟩
  · rw [hpeer]
  · rw [hpeer]
  · rw [hpeer, hd]
    exact .some h

theorem Follows.of_eq (h : e'.peer = e.peer) : e.Follows P e' := by
  refine ⟨.refl (congrArg Peer.sess h), congrArg Peer.dgramEpoch h, ?_⟩
  rw [h]
  cases e.peer.dgram with
  | none => exact .none
  | some d => exact .some (.refl d)

theorem Follows.refl (e : Entry) : e.Follows P e := .of_eq rfl

theorem Follows.gated (h : e.Follows P e') (he : e.Gated) : e'.Gated := by
  intro d' hd'
  have hheld := h.held
  rw [Option.mem_def.mp hd'] at hheld
  generalize ho : e.peer.dgram = o at hheld
  cases hheld with
  | some hd => exact hd.gated (he _ ho)

theorem Follows.live (h : e.Follows P e') (he : e.Live) : e'.Live := by
  intro d' hd'
  have hheld := h.held
  rw [Option.mem_def.mp hd'] at hheld
  generalize ho : e.peer.dgram = o at hheld
  cases hheld with
  | some hd =>
      rw [hd.remote]
      exact he _ ho

/-- A channel behind the peer's offer can be put on any path. -/
theorem Follows.dgramSetPath (h : e.Follows P e') (he : e.Live) (p : DatagramPath) :
    e.Follows P (e'.dgramSetPath p) := by
  refine h.trans ?_
  cases hd : e'.peer.dgram with
  | none =>
      refine .of_eq ?_
      rw [dgramSetPath_peer, hd]
      exact Peer.dgram_eta hd
  | some d =>
      have hpath : d.Follows P { d with path := p } :=
        .of_remote (h.live he d hd) rfl rfl .refl
      refine .of_peer hd ?_ hpath
      rw [dgramSetPath_peer, hd, Option.map_some]

/-- Writing back a channel behind the peer's offer. -/
theorem follows_setDgram (he : e.Live) (hd : e.peer.dgram = some d) (hepoch : d'.epoch = d.epoch)
    (hremote : d'.remote = d.remote) (hreach : d.sess.Reaches P d'.sess) :
    e.Follows P (e.setDgram d') :=
  .of_peer hd rfl (.of_remote (he d hd) hepoch hremote hreach)

/-- What is noted of punching and relays does not move the session; a waiting
channel may not start on either. -/
theorem follows_setUdp (hd : e.peer.dgram = some d) {u : DgramUdp}
    (hpunch : u.punch = true → d.udp.punch = true ∨ d.remote.isSome = true)
    (hrelaying : u.relaying = true → d.udp.relaying = true) : e.Follows P (e.setUdp d u) := by
  refine .of_peer hd rfl ⟨rfl, rfl, .refl, fun hnone hw => ?_⟩
  refine ⟨hw.fresh, hw.out, hw.opened, hw.events, hw.path, ?_, ?_⟩
  · cases hu : u.punch with
    | false => rfl
    | true =>
        rcases hpunch hu with hp | hr
        · rw [hw.punch] at hp
          cases hp
        · rw [hnone] at hr
          cases hr
  · cases hu : u.relaying with
    | false => rfl
    | true =>
        have hr := hrelaying hu
        rw [hw.relaying] at hr
        cases hr

/-- A channel that punches has the peer's offer. -/
theorem Gated.live_of (h : e.Gated) (hd : e.peer.dgram = some d) (hnot : ¬ Waiting d) : e.Live := by
  intro d' hd'
  rw [hd] at hd'
  cases hd'
  exact (h d hd).remote_of hnot

/-! ### The relay -/

theorem follows_relayUp (he : e.Live) (hd : e.peer.dgram = some d) (hepoch : d'.epoch = d.epoch)
    (hremote : d'.remote = d.remote) (hsess : d'.sess = d.sess) (server : Endpoint)
    (now : Instant) : e.Follows P (e.relayUp d' server now) := by
  refine Follows.dgramSetPath ?_ he _
  refine follows_setDgram he hd hepoch hremote ?_
  rw [← hsess]
  exact .setPath _ _ _

theorem follows_dgramFallBack (he : e.Live) (hd : e.peer.dgram = some d) (server : Endpoint)
    (now : Instant) : e.Follows P (e.dgramFallBack d server now) := by
  unfold dgramFallBack
  simp only
  split
  · refine Follows.dgramSetPath ?_ he _
    exact follows_setDgram he hd rfl rfl .refl
  · refine Follows.dgramSetPath ?_ he _
    exact follows_setDgram he hd rfl rfl .refl
  · split
    · apply follows_relayUp he hd
      · rfl
      · rfl
      · rfl
    · exact follows_setDgram he hd rfl rfl .refl

theorem follows_dgramRelayGranted (e : Entry) (id : Nat) (token : Bytes) (now : Instant) :
    e.Follows P (e.dgramRelayGranted id token now) := by
  unfold dgramRelayGranted
  split
  · exact .refl e
  · rename_i d hd
    split
    · exact .refl e
    · exact follows_setUdp hd Or.inl fun h => h

theorem follows_relayAllocOk (e : Entry) (epoch id : Nat) (token : Bytes) (now : Instant) :
    e.Follows P (e.relayAllocOk epoch id token now) := by
  unfold relayAllocOk
  split
  · exact follows_dgramRelayGranted e id token now
  · exact .refl e

theorem Gated.relayAllocRefused (he : e.Gated) (epoch : Nat) :
    e.Follows P (e.relayAllocRefused epoch) := by
  unfold Entry.relayAllocRefused
  split
  · exact .refl e
  · rename_i d hd
    split
    · rename_i hon
      simp only [Bool.and_eq_true] at hon
      have hlive : e.Live := by
        refine he.live_of hd fun hw => ?_
        rw [hw.relaying] at hon
        cases hon.2
      refine Follows.dgramSetPath ?_ hlive _
      exact follows_setUdp hd Or.inl nofun
    · exact .refl e

/-! ### Datagrams in and out -/

theorem Gated.onUdpFromServer (he : e.Gated) (env : DgramEnv) (dgram : Bytes) (now : Instant) :
    e.Follows P (e.onUdpFromServer P env dgram now) := by
  unfold Entry.onUdpFromServer
  split
  · rename_i d _ hd
    split
    · split
      · exact .refl e
      split
      · exact .refl e
      simp only
      split
      · rename_i hon
        have hlive : e.Live := by
          refine he.live_of hd fun hw => ?_
          rw [hw.relaying] at hon
          cases hon
        apply follows_relayUp hlive hd
        · rfl
        · rfl
        · rfl
      · exact follows_setUdp hd Or.inl fun h => h
    split
    · split
      · exact .refl e
      split
      · exact .refl e
      · rename_i hgate
        simp only [Bool.or_eq_true, not_or, Bool.not_eq_true, Option.isNone_eq_false_iff] at hgate
        refine .of_peer hd rfl (.of_remote hgate.2 rfl rfl ?_)
        exact .step .refl (.onDatagram _ _ _)
    · exact .refl e
  · exact .refl e

theorem Gated.onUdp (he : e.Gated) (env : DgramEnv) (src : Endpoint) (dgram : Bytes)
    (now : Instant) : e.Follows P (e.onUdp P env src dgram now) := by
  unfold Entry.onUdp
  split
  · split
    · split
      · exact he.onUdpFromServer env _ now
      · exact .refl e
    split
    · exact .refl e
    split
    · split
      · rename_i cid d _ hd
        split
        · exact .refl e
        · rename_i hgate
          simp only [Bool.or_eq_true, not_or, Bool.not_eq_true, Option.isNone_eq_false_iff] at hgate
          refine .of_peer hd rfl (.of_remote hgate.1 rfl rfl ?_)
          exact .step .refl (.onDatagram _ _ _)
      · exact .refl e
    · exact .refl e
  · exact .refl e

theorem follows_flushDgram (e : Entry) (env : DgramEnv) : e.Follows P (e.flushDgram env).2 := by
  unfold flushDgram
  split
  · exact .refl e
  · rename_i d hd
    split
    · exact .refl e
    · exact follows_setUdp hd Or.inl fun h => h

/-- A record sent leaves the channel alone. -/
theorem follows_sendRecord (e : Entry) (kind : UInt8) (body : Bytes) (now : Instant)
    (io : List SendResult) : e.Follows P (e.sendRecord P kind body now io).2.2 := by
  obtain ⟨hcalls, hdgram, hhigh⟩ := calls_sendRecord (P := P) e kind body now io
  refine ⟨hcalls, hhigh, ?_⟩
  rw [hdgram]
  cases e.peer.dgram with
  | none => exact .none
  | some d => exact .some (.refl d)

theorem Gated.sendDatagram (he : e.Gated) (env : DgramEnv) (payload : Bytes) (now : Instant)
    (io : List SendResult) : e.Follows P (e.sendDatagram P env payload now io).2.2.2.2 := by
  unfold Entry.sendDatagram
  split
  · exact .refl e
  split
  · exact .refl e
  · rename_i d hd
    split
    · rename_i hpath
      split
      · exact follows_sendRecord e _ _ _ _
      · have hlive : e.Live := by
          refine he.live_of hd fun hw => ?_
          rcases hw.path with h | h
          · rw [h] at hpath
            cases hpath
          · rw [h] at hpath
            cases hpath
        have hsent : e.Follows P (e.setDgram { d with sess := (d.sess.send P payload now).2 }) :=
          follows_setDgram hlive hd rfl rfl (.step .refl (.send payload now))
        split
        · rename_i hs
          rw [hs] at hsent
          exact hsent
        · rename_i hs
          rw [hs] at hsent
          exact hsent.trans (follows_flushDgram _ env)
    split
    · exact follows_sendRecord e _ _ _ _
    · exact .refl e

/-! ### Driving -/

theorem follows_startPunch (cfg : NodeConfig) (e : Entry) (env : DgramEnv) (now : Instant) :
    e.Follows P (e.startPunch cfg env now) := by
  unfold startPunch
  split
  · exact .refl e
  · rename_i d hd
    split
    · exact .refl e
    · rename_i cands hr
      have hlive : e.Live := by
        intro d' hd'
        rw [hd] at hd'
        cases hd'
        rw [hr]
        rfl
      split
      · split
        · exact follows_dgramFallBack hlive hd _ _
        · exact follows_setUdp hd (fun _ => Or.inr (hlive d hd)) fun h => h
      · exact .refl e

theorem Live.punchEvents (env : DgramEnv) (now : Instant) (evs : List PunchEvent) {e : Entry}
    (he : e.Live) : e.Follows P (Entry.punchEvents env now evs e) := by
  induction evs generalizing e with
  | nil => exact .refl e
  | cons ev evs ih =>
      unfold Entry.punchEvents
      split
      · exact .refl e
      · rename_i d hd
        split
        · exact ih he
        · cases ev with
          | pathValidated => exact ih he
          | nominated path =>
              have hset : e.Follows P ((e.setDgram { d with
                  sess := d.sess.setPath path now
                  udp := { d.udp with direct := some path } }).dgramSetPath .direct) := by
                refine Follows.dgramSetPath ?_ he _
                exact follows_setDgram he hd rfl rfl (.setPath _ _ _)
              exact hset.trans (ih (hset.live he))
          | failed => exact follows_dgramFallBack he hd _ _

theorem Gated.drivePunch (he : e.Gated) (env : DgramEnv) (turn : PunchTurn) (now : Instant) :
    e.Follows P (e.drivePunch env turn now) := by
  unfold Entry.drivePunch
  split
  · rename_i hon
    have hlive : e.Live := by
      cases hd : e.peer.dgram with
      | none =>
          rw [hd] at hon
          cases hon
      | some d =>
          refine he.live_of hd fun hw => ?_
          rw [hd, Option.any_some, hw.punch] at hon
          cases hon
    have hevents := Live.punchEvents (P := P) env now turn.events hlive
    simp only
    split
    · exact hevents
    · rename_i d hd
      split
      · exact hevents.trans (follows_setUdp hd nofun fun h => h)
      · exact hevents
  · exact .refl e

theorem Gated.driveRelay (he : e.Gated) (env : DgramEnv) (now : Instant) :
    e.Follows P (e.driveRelay env now).2 := by
  unfold Entry.driveRelay
  split
  · exact .refl e
  · rename_i d hd
    split
    · rename_i hon
      have hlive : e.Live := by
        refine he.live_of hd fun hw => ?_
        rw [hw.relaying] at hon
        cases hon
      simp only
      split
      · refine Follows.dgramSetPath ?_ hlive _
        exact follows_setDgram hlive hd rfl rfl .refl
      · exact follows_setDgram hlive hd rfl rfl .refl
    · exact .refl e

theorem follows_driveBind (e : Entry) (env : DgramEnv) (now : Instant) :
    e.Follows P (e.driveBind env now).2 := by
  unfold driveBind
  split
  · exact .refl e
  · rename_i d hd
    split
    · exact .refl e
    · split
      · exact follows_setUdp hd Or.inl fun h => h
      · exact .refl e

theorem Live.sessionEvent (he : e.Live) (env : DgramEnv) (now : Instant) (ev : SessionEvent) :
    e.Follows P (e.sessionEvent env now ev) := by
  unfold Entry.sessionEvent
  split
  · exact .refl e
  · rename_i d hd
    cases ev with
    | data body => exact .of_eq rfl
    | pathChanged path =>
        simp only
        split
        · refine Follows.dgramSetPath ?_ he _
          exact follows_setDgram he hd rfl rfl .refl
        split
        · refine Follows.dgramSetPath ?_ he _
          exact follows_setDgram he hd rfl rfl .refl
        split
        · exact follows_setDgram he hd rfl rfl (.setPath _ _ _)
        · exact .refl e
    | closed cause reason => exact (Follows.refl e).dgramSetPath he _

theorem Live.sessionEvents (env : DgramEnv) (now : Instant) (evs : List SessionEvent) {e : Entry}
    (he : e.Live) : e.Follows P (evs.foldl (Entry.sessionEvent env now) e) := by
  induction evs generalizing e with
  | nil => exact .refl e
  | cons ev evs ih =>
      have hev := he.sessionEvent (P := P) env now ev
      exact hev.trans (ih (hev.live he))

/-- A waiting channel is not timed and has no events. -/
theorem Gated.driveSession (he : e.Gated) (env : DgramEnv) (now : Instant) :
    e.Follows P (e.driveSession P env now) := by
  unfold Entry.driveSession
  split
  · exact .refl e
  · rename_i d hd
    simp only
    cases hr : d.remote with
    | none =>
        have hw := he d hd hr
        have hsame : e.setDgram { d with sess := { d.sess with events := [] }, remote := none } = e := by
          unfold Entry.setDgram
          have hsess : { d.sess with events := [] } = d.sess := by rw [← hw.events]
          rw [hsess, ← hr, ← hd]
        simp only [Option.isSome_none, Bool.false_and, Bool.false_eq_true, if_false, hw.events,
          List.foldl_nil]
        rw [hsame]
        exact .refl e
    | some cands =>
        have hlive : e.Live := by
          intro d' hd'
          rw [hd] at hd'
          cases hd'
          rw [hr]
          rfl
        have hpoll : e.Follows P (e.setDgram { d with
            remote := some cands
            sess := { (if (some cands).isSome && d.sess.path.port ≠ 0 then d.sess.onTimeout P now
              else d.sess) with events := [] } }) := by
          refine follows_setDgram hlive hd rfl hr.symm (.poll ?_)
          split
          · exact .step .refl (.onTimeout now)
          · exact .refl
        exact hpoll.trans (Live.sessionEvents env now _ (hpoll.live hlive))

theorem follows_markOffered (e : Entry) : e.Follows P e.markOffered := by
  refine ⟨.refl rfl, rfl, ?_⟩
  unfold markOffered
  cases e.peer.dgram with
  | none => exact .none
  | some d =>
      refine .some ⟨rfl, rfl, .refl, fun _ hw => ?_⟩
      exact ⟨hw.fresh, hw.out, hw.opened, hw.events, hw.path, hw.punch, hw.relaying⟩

theorem follows_driveOffer (cfg : NodeConfig) (e : Entry) (udp : UdpView) (now : Instant)
    (io : List SendResult) : e.Follows P (e.driveOffer P cfg udp now io).2.2 := by
  unfold driveOffer
  split
  · split
    · exact .refl e
    split
    · exact (follows_sendRecord e _ _ _ _).trans (follows_markOffered _)
    · exact .refl e
  · exact .refl e

theorem Gated.driveDgram (he : e.Gated) (cfg : NodeConfig) (env : DgramEnv) (turn : PunchTurn)
    (now : Instant) (io : List SendResult) :
    e.Follows P (e.driveDgram P cfg env turn now io).2.2.2 := by
  unfold Entry.driveDgram
  split
  · have hoffer := follows_driveOffer (P := P) cfg e env.udp now io
    have hstart := hoffer.trans (follows_startPunch cfg _ env now)
    have hpunch := hstart.trans ((hstart.gated he).drivePunch env turn now)
    have hrelay := hpunch.trans ((hpunch.gated he).driveRelay env now)
    have hbind := hrelay.trans (follows_driveBind _ env now)
    have hsess := hbind.trans ((hbind.gated he).driveSession env now)
    exact hsess.trans (follows_flushDgram _ env)
  · exact .refl e

theorem follows_sendDatagramsOverTcp (e : Entry) : e.Follows P e.sendDatagramsOverTcp.2 := by
  unfold sendDatagramsOverTcp
  split
  · exact .refl e
  · rename_i d hd
    split
    · exact .refl e
    split
    · exact .refl e
    · have hset : d.Follows P { d with overTcp := true } := by
        refine ⟨rfl, rfl, .refl, fun _ hw => ?_⟩
        exact ⟨hw.fresh, hw.out, hw.opened, hw.events, hw.path, hw.punch, hw.relaying⟩
      refine .of_peer hd ?_ hset
      simp only
      split <;> rfl

/-! ### What leaves the node -/

/-- What is flushed are packets of the channel's session. -/
theorem packets_flushDgram (e : Entry) (env : DgramEnv) {x : DgramSend}
    (hx : x ∈ (e.flushDgram env).1) {data : Bytes} (hdata : x.packet? = some data) :
    ∃ d ∈ (e.flushDgram env).2.peer.dgram, ∃ o ∈ d.sess.out, o.data = data := by
  unfold flushDgram at hx ⊢
  split at hx
  · cases hx
  · rename_i d hd
    split at hx
    · cases hx
    · rename_i hready
      rw [if_neg hready]
      obtain ⟨o, ho, hroute⟩ := List.mem_filterMap.mp hx
      refine ⟨_, rfl, o, List.mem_of_mem_drop ho, ?_⟩
      unfold route at hroute
      split at hroute
      · cases hroute
      split at hroute
      · obtain ⟨id, -, rfl⟩ := Option.map_eq_some_iff.mp hroute
        exact Option.some.inj hdata
      · cases hroute
        exact Option.some.inj hdata

theorem packets_driveDgram (cfg : NodeConfig) (e : Entry) (env : DgramEnv) (turn : PunchTurn)
    (now : Instant) (io : List SendResult) {x : DgramSend}
    (hx : x ∈ (e.driveDgram P cfg env turn now io).2.1) {data : Bytes}
    (hdata : x.packet? = some data) :
    ∃ d ∈ (e.driveDgram P cfg env turn now io).2.2.2.peer.dgram, ∃ o ∈ d.sess.out,
      o.data = data := by
  unfold driveDgram at hx ⊢
  split at hx
  · rename_i hup
    rw [if_pos hup]
    simp only [List.append_assoc, List.mem_append] at hx
    rcases hx with hx | hx | hx
    · unfold driveRelay at hx
      split at hx
      · cases hx
      split at hx
      · simp only at hx
        split at hx
        · rw [List.mem_singleton.mp hx] at hdata
          cases hdata
        · cases hx
      · cases hx
    · unfold driveBind at hx
      split at hx
      · cases hx
      split at hx
      · cases hx
      split at hx
      · rw [List.mem_singleton.mp hx] at hdata
        cases hdata
      · cases hx
    · exact packets_flushDgram _ env hx hdata
  · cases hx

theorem packets_sendDatagram (e : Entry) (env : DgramEnv) (payload : Bytes) (now : Instant)
    (io : List SendResult) {x : DgramSend}
    (hx : x ∈ (e.sendDatagram P env payload now io).2.2.1) {data : Bytes}
    (hdata : x.packet? = some data) :
    ∃ d ∈ (e.sendDatagram P env payload now io).2.2.2.2.peer.dgram, ∃ o ∈ d.sess.out,
      o.data = data := by
  unfold sendDatagram at hx ⊢
  split at hx
  · cases hx
  rename_i hok
  rw [if_neg hok]
  split at hx
  · cases hx
  · rename_i d hd
    simp only
    split at hx
    · rename_i hpath
      rw [if_pos hpath]
      split at hx
      · cases hx
      · rename_i hover
        rw [if_neg hover]
        split at hx
        · cases hx
        · exact packets_flushDgram _ env hx hdata
    · split at hx
      · cases hx
      · cases hx

end Entry

end UConnect.Node
