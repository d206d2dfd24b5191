/-
  Node/AttemptTrace.lean --- a peer's attempt and what is logged of it.

  The table of attempts is brought up to date from the effects a function logs,
  so the effects have to tell of every change to the peer's attempt, in order.
  `Tracks` says that they do; `Follows` says it of a function on the peer's
  entry, and is proved here for each of them.

  A session that comes up is logged with its own attempt.  `Q` relates that to
  the peer's attempt; what it takes to have `Q` when a session comes up is
  `Owes`.
-/
import UConnect.Node.Book
import UConnect.Node.DriveFrame

set_option autoImplicit false

namespace UConnect.Node

open UConnect.Foundation UConnect.Crypto UConnect.Wire TcpSession

/-! ## Effects that track an attempt

What is logged, read in order, takes the attempt from what it was to what it is;
one lemma for each function. -/

/-- The effects lead from attempt `a` to attempt `b`.  A session that comes up
ends the attempt. -/
inductive Tracks (Q : Option AttemptNonce → AttemptNonce → Prop) :
    Option AttemptNonce → List Effect → Option AttemptNonce → Prop
  | nil (a : Option AttemptNonce) : Tracks Q a [] a
  | erase {n : AttemptNonce} {fs : List Effect} {b : Option AttemptNonce}
      (h : Tracks Q none fs b) : Tracks Q (some n) (.erase n :: fs) b
  | adopt {a b : Option AttemptNonce} {n : AttemptNonce} {fs : List Effect}
      (h : Tracks Q (some n) fs b) : Tracks Q a (.adopt a n :: fs) b
  | connect {a b : Option AttemptNonce} {n : AttemptNonce} {fs : List Effect}
      (h : Tracks Q a fs b) : Tracks Q a (.connect n :: fs) b
  | dial {b : Option AttemptNonce} {n : AttemptNonce} {cands : List Candidate} {fs : List Effect}
      (h : Tracks Q (some n) fs b) : Tracks Q (some n) (.dial n cands :: fs) b
  | relayAlloc {a b : Option AttemptNonce} {fs : List Effect}
      (h : Tracks Q a fs b) : Tracks Q a (.relayAlloc :: fs) b
  | established {a b : Option AttemptNonce} {n : AttemptNonce} {fs : List Effect} (hQ : Q a n)
      (h : Tracks Q none fs b) :
      Tracks Q a (.established n :: ((a.map Effect.erase).toList ++ fs)) b

theorem Tracks.append {Q : Option AttemptNonce → AttemptNonce → Prop} {a b c : Option AttemptNonce}
    {fs gs : List Effect} (h : Tracks Q a fs b) (h' : Tracks Q b gs c) :
    Tracks Q a (fs ++ gs) c := by
  induction h with
  | nil a => exact h'
  | erase _ ih => exact .erase (ih h')
  | adopt _ ih => exact .adopt (ih h')
  | connect _ ih => exact .connect (ih h')
  | dial _ ih => exact .dial (ih h')
  | relayAlloc _ ih => exact .relayAlloc (ih h')
  | established hQ _ ih =>
      rw [List.cons_append, List.append_assoc]
      exact .established hQ (ih h')

/-- From one entry to the other, the effects logged tell what became of the
attempt. -/
def Follows (Q : Option AttemptNonce → AttemptNonce → Prop) (e e' : Entry) : Prop :=
  ∃ fs, e'.effects = e.effects ++ fs ∧ Tracks Q e.peer.attempt fs e'.peer.attempt

section Follow

variable {Q : Option AttemptNonce → AttemptNonce → Prop} {env : Env} {e e' e'' : Entry}

theorem Follows.of_eq (hf : e'.effects = e.effects) (ha : e'.peer.attempt = e.peer.attempt) :
    Follows Q e e' := by
  refine ⟨[], ?_, ?_⟩
  · rw [hf, List.append_nil]
  · rw [ha]
    exact .nil _

theorem Follows.refl (e : Entry) : Follows Q e e := .of_eq rfl rfl

theorem Follows.trans (h : Follows Q e e') (h' : Follows Q e' e'') : Follows Q e e'' := by
  obtain ⟨fs, hfs, ht⟩ := h
  obtain ⟨gs, hgs, ht'⟩ := h'
  refine ⟨fs ++ gs, ?_, ht.append ht'⟩
  rw [hgs, hfs, List.append_assoc]

/-- A change that neither the attempt nor the effects is part of. -/
theorem Follows.with_peer (h : Follows Q e e') {p : Peer} (hp : p.attempt = e'.peer.attempt) :
    Follows Q e { e' with peer := p } :=
  h.trans (.of_eq rfl hp)

theorem Minor.follows {R : TcpSession → TcpSession → Prop} (h : Minor R e e') : Follows Q e e' :=
  .of_eq h.effects h.attempt

variable (env) (e)

theorem follows_setPeerState (s : PeerState) : Follows Q e (e.setPeerState s) := by
  apply Follows.of_eq (Entry.setPeerState_effects e s)
  rw [Entry.setPeerState_peer]

/-- The end of an attempt logs the nonce that is given back. -/
theorem follows_endAttempt : Follows Q e e.endAttempt := by
  refine ⟨_, Entry.endAttempt_effects e, ?_⟩
  rw [Entry.endAttempt_peer]
  cases e.peer.attempt with
  | none => exact .nil _
  | some n => exact .erase (.nil _)

/-- An adoption logs the attempt it replaces and the one it takes. -/
theorem follows_adoptAttempt (n : AttemptNonce) : Follows Q e (e.adoptAttempt env n) := by
  rcases Entry.adoptAttempt_effects env e n with h | h
  · refine ⟨_, h, ?_⟩
    rw [Entry.adoptAttempt_peer]
    exact .adopt (.nil _)
  · refine ⟨_, h, ?_⟩
    rw [Entry.adoptAttempt_peer]
    exact .adopt (.dial (.nil _))

theorem follows_beginConnect : Follows Q e (e.beginConnect env) := by
  rcases Entry.beginConnect_cases env e with h | ⟨-, -, h⟩
  · rw [h]
    exact .refl e
  · rw [h]
    refine Follows.trans ?_ (follows_adoptAttempt env _ _)
    exact ⟨_, Entry.log_effects e _, .connect (.nil _)⟩

theorem follows_driveReach : Follows Q e (e.driveReach env) := by
  obtain ⟨_, _, _, hpeer⟩ := Entry.driveReach_peer env e
  have hattempt : (e.driveReach env).peer.attempt = e.peer.attempt := by rw [hpeer]
  rcases Entry.driveReach_effects env e with h | ⟨n, hn, h⟩ | h
  · exact .of_eq h hattempt
  · refine ⟨_, h, ?_⟩
    rw [hattempt, hn]
    exact .dial (.nil _)
  · refine ⟨_, h, ?_⟩
    rw [hattempt]
    exact .relayAlloc (.nil _)

theorem follows_driveRetry : Follows Q e (e.driveRetry env) := by
  unfold Entry.driveRetry
  split
  · have hconn : Follows Q e ({ e with peer := { e.peer with retryAt := 0 } }.beginConnect env) :=
      Follows.trans (.of_eq rfl rfl) (follows_beginConnect env _)
    simp only
    split
    · exact hconn.trans (follows_setPeerState _ _)
    · exact hconn
  · exact .refl e

theorem follows_driveDial : Follows Q e (e.driveDial env) := by
  have hreach := follows_driveReach (Q := Q) env e
  unfold Entry.driveDial
  simp only
  split
  · exact hreach.trans ((follows_endAttempt _).trans (follows_setPeerState _ _))
  · exact hreach

theorem follows_onGone (wasUp : Bool) : Follows Q e (e.onGone env wasUp) := by
  have hset := (follows_endAttempt (Q := Q) e).trans
    (follows_setPeerState e.endAttempt (if wasUp then .closed else .failed))
  rcases Entry.onGone_cases env e wasUp with ⟨r, ra, h⟩ | h | ⟨n, -, h⟩
  · rw [h]
    refine Follows.with_peer (Follows.trans ?_ (follows_setPeerState _ _)) rfl
    exact (follows_endAttempt e).with_peer rfl
  · rw [h]
    exact hset.with_peer rfl
  · rw [h]
    exact (hset.trans (follows_adoptAttempt env _ n)).with_peer rfl

theorem follows_onClosed (cause : CloseCause) (peerReason : Nat) :
    Follows Q e (e.onClosed env cause peerReason) := by
  have hreport : Follows Q e (e.reportClosed cause peerReason) := by
    apply Follows.of_eq (Entry.reportClosed_effects e cause peerReason)
    rw [Entry.reportClosed_peer]
  rcases Entry.onClosed_cases env e cause peerReason with ⟨-, h⟩ | h
  · rw [h]
    exact hreport.trans (follows_setPeerState _ _)
  · rw [h]
    exact hreport.trans (follows_onGone env _ _)

/-- A session that comes up is logged, and ends the attempt. -/
theorem follows_onEstablished {t : TcpSession} (hs : e.peer.sess = some t)
    (hQ : Q e.peer.attempt t.attempt) : Follows Q e e.onEstablished := by
  have hfs : e.onEstablished.effects =
      e.effects ++ (.established t.attempt :: ((e.peer.attempt.map Effect.erase).toList ++ [])) := by
    unfold Entry.onEstablished
    simp only [hs]
    rw [Entry.setPeerState_effects]
    simp [Entry.endAttempt_effects]
  refine ⟨_, hfs, ?_⟩
  have hnone : e.onEstablished.peer.attempt = none := by
    unfold Entry.onEstablished
    simp [hs]
  rw [hnone]
  exact .established hQ (.nil _)

end Follow

/-! ## Sessions that may come up

A session comes up once, and under the attempt it was begun for. -/

/-- What it takes for a session that comes up to be under the right attempt: as
long as it has not been seen to, its attempt and the peer's are as `Q` says. -/
def Owes (Q : Option AttemptNonce → AttemptNonce → Prop) (e : Entry) : Prop :=
  ∀ t ∈ e.peer.sess, ∃ v, Emits v t.events t.state ∧
    (v = .handshaking → Q e.peer.attempt t.attempt)

/-- The same between two operations, when a session that is not seen to be up is
in its handshake still. -/
def Rests (Q : Option AttemptNonce → AttemptNonce → Prop) (e : Entry) : Prop :=
  ∀ t ∈ e.peer.sess, ∃ v, Emits v t.events t.state ∧
    (v = .handshaking → t.state = .handshaking ∧ Q e.peer.attempt t.attempt)

section Sessions

variable (P : Primitives) {Q : Option AttemptNonce → AttemptNonce → Prop} {env : Env} {e e' : Entry}

theorem Rests.owes (h : Rests Q e) : Owes Q e := by
  intro t ht
  obtain ⟨v, hemits, hv⟩ := h t ht
  exact ⟨v, hemits, fun hhs => (hv hhs).2⟩

theorem rests_none (hs : e.peer.sess = none) : Rests Q e := by
  intro t ht
  rw [hs] at ht
  cases ht

/-- Between operations a session in its handshake is left alone. -/
theorem Rests.minor (h : Rests Q e) (hminor : Minor Steady e e') : Rests Q e' := by
  intro t' ht'
  have hsess := hminor.sess
  rw [Option.mem_def.mp ht'] at hsess
  generalize hs : e.peer.sess = o at hsess
  cases hsess with
  | @some t _ hsteady =>
      obtain ⟨v, hemits, hv⟩ := h t hs
      obtain ⟨es, hes, hemits'⟩ := hsteady.advances.emits
      refine ⟨v, ?_, fun hhs => ?_⟩
      · rw [hes]
        exact hemits.append hemits'
      · obtain ⟨hstate, hQ⟩ := hv hhs
        have hkept := hsteady.kept hstate
        rw [hminor.attempt, hkept.attempt]
        exact ⟨hkept.state.trans hstate, hQ⟩

/-- Fields that neither the attempt nor the session is among. -/
theorem Rests.of_peer {p : Peer} (h : Rests Q e) (hs : p.sess = e.peer.sess)
    (ha : p.attempt = e.peer.attempt) : Rests Q { e with peer := p } := by
  intro t ht
  rw [Option.mem_def, hs] at ht
  rw [ha]
  exact h t ht

/-- The event loop tells of every session that comes up. -/
theorem follows_onEvents {evs : List TcpEvent} {v w : TcpState} {t : TcpSession}
    (hemits : Emits v evs w) (hs : e.peer.sess = some t)
    (hQ : v = .handshaking → Q e.peer.attempt t.attempt) :
    Follows Q e (evs.foldl (Entry.onEvent P env) e) := by
  induction hemits generalizing e t with
  | nil st => exact .refl e
  | established hrest ih =>
      refine (follows_onEstablished e hs (hQ rfl)).trans (ih (t := t) ?_ nofun)
      unfold Entry.onEstablished
      simp [hs]
  | record kind body hrest ih =>
      have hminor := Entry.onRecord_minor P env.cfg e env.now kind body
      refine hminor.follows.trans ?_
      have hsess := hminor.sess
      rw [hs] at hsess
      generalize hn : (e.onRecord P env.cfg kind body env.now).peer.sess = o at hsess
      cases hsess with
      | some hkept => exact ih hn nofun
  | closed hlive cause peerReason => exact follows_onClosed env e cause peerReason

theorem emits_from_established {v : TcpState} {evs : List TcpEvent}
    (h : Emits .established evs v) : v ≠ .handshaking := by
  generalize hu : TcpState.established = u at h
  induction h with
  | nil st =>
      subst hu
      exact TcpState.noConfusion
  | established _ ih => exact ih rfl
  | record _ _ _ ih => exact ih rfl
  | closed => exact TcpState.noConfusion

/-- A session in its handshake has said nothing. -/
theorem emits_handshaking {v : TcpState} {evs : List TcpEvent} (h : Emits v evs .handshaking) :
    v = .handshaking ∧ evs = [] := by
  cases h with
  | nil => exact ⟨rfl, rfl⟩
  | established h => exact absurd rfl (emits_from_established h)
  | record _ _ h => exact absurd rfl (emits_from_established h)

/-- The session half of `drive_peer`. -/
theorem follows_driveEvents {t : TcpSession} {v : TcpState} (hemits : Emits v t.events t.state)
    (hQ : v = .handshaking → Q e.peer.attempt t.attempt) (recvs : List RecvResult) :
    Follows Q e (e.driveEvents P env t recvs) ∧
      ((polledSession P env t recvs).state = .handshaking →
        Q (e.driveEvents P env t recvs).peer.attempt t.attempt) := by
  have hadv := @advances_polledSession P env t recvs
  obtain ⟨es, hes, hemits'⟩ := hadv.emits
  have hall := hemits.append hemits'
  rw [← hes] at hall
  have hQ' : v = .handshaking → Q e.peer.attempt (polledSession P env t recvs).attempt := by
    rw [hadv.attempt]
    exact hQ
  refine ⟨?_, fun hhs => ?_⟩
  · have hpeer : Follows Q e { e with
        peer := { e.peer with sess := some { polledSession P env t recvs with events := [] } } } :=
      .of_eq rfl rfl
    exact hpeer.trans (follows_onEvents P hall rfl hQ')
  · -- nothing was polled, so the attempt is the one before
    rw [hhs] at hall
    obtain ⟨hv, hnil⟩ := emits_handshaking hall
    have heq : e.driveEvents P env t recvs = { e with
        peer := { e.peer with sess := some { polledSession P env t recvs with events := [] } } } := by
      change (polledSession P env t recvs).events.foldl _ _ = _
      rw [hnil]
      rfl
    rw [heq]
    exact hQ hv

/-- `drive_peer` tells of every change to the attempt and every session that
comes up. -/
theorem Owes.drivePeer (h : Owes Q e) (io : Io) :
    Follows Q e (e.drivePeer P env io) ∧ Rests Q (e.drivePeer P env io) := by
  cases hs : e.peer.sess with
  | none =>
      have hretry := @follows_driveRetry Q env e
      have hnone := @sess_driveRetry env e hs
      rcases drivePeer_of_none P io hs with heq | heq
      · rw [heq]
        exact ⟨hretry, rests_none hnone⟩
      · rw [heq]
        exact ⟨hretry.trans (follows_driveDial env _), rests_none (sess_driveDial hnone)⟩
  | some t =>
      obtain ⟨v, hemits, hQ⟩ := h t hs
      obtain ⟨hfollows, hQ'⟩ := @follows_driveEvents P Q env e t v hemits hQ io.recvs
      obtain ⟨t', hs', hevents, hstate, hattempt⟩ := @sess_driveEvents P env e t io.recvs
      obtain ⟨-, hsame, -, heffects⟩ := @driveOutput_frame (e.driveEvents P env t io.recvs) io.sends
      rw [drivePeer_of_sess P hs]
      refine ⟨hfollows.trans (.of_eq heffects hsame), ?_⟩
      intro t'' ht''
      rw [Option.mem_def, sess_driveOutput hs'] at ht''
      split at ht''
      · cases ht''
      · cases ht''
        have hevents' : t'.takeOutput.2.events = [] := hevents
        refine ⟨t'.state, ?_, fun hhs => ⟨hhs, ?_⟩⟩
        · rw [hevents']
          exact .nil _
        · rw [hsame]
          have hat : t'.takeOutput.2.attempt = t.attempt := hattempt
          rw [hat]
          exact hQ' (hstate ▸ hhs)

/-- A session past its handshake has nothing to do with the attempt. -/
theorem Rests.of_past (h : Rests Q e) (hs : e'.peer.sess = e.peer.sess)
    (hpast : ∀ t ∈ e.peer.sess, t.state ≠ .handshaking) : Rests Q e' := by
  intro t ht
  rw [Option.mem_def, hs] at ht
  obtain ⟨v, hemits, hv⟩ := h t ht
  exact ⟨v, hemits, fun hhs => absurd (hv hhs).1 (hpast t ht)⟩

theorem Rests.beginConnect (h : Rests Q e) : Rests Q (e.beginConnect env) := by
  rcases Entry.beginConnect_cases env e with heq | ⟨hs, -, heq⟩
  · rw [heq]
    exact h
  · exact rests_none (sess_beginConnect hs)

theorem follows_meetIntro (self : DevId) (n : AttemptNonce) :
    Follows Q e (e.meetIntro env self n) := by
  unfold Entry.meetIntro
  split
  · exact .refl e
  · exact follows_adoptAttempt env e n

theorem sess_meetIntro (self : DevId) (n : AttemptNonce) :
    (e.meetIntro env self n).peer.sess = e.peer.sess := by
  unfold Entry.meetIntro
  split
  · rfl
  · rw [Entry.adoptAttempt_peer]

/-- The session that is asked whether it is still there is past its handshake. -/
theorem Rests.keepIntro (h : Rests Q e) {t : TcpSession} (hs : e.peer.sess = some t)
    (hup : t.state = .established) (n : AttemptNonce) : Owes Q (e.keepIntro P env t n) := by
  have hadv : Advances t (if env.now - t.lastRecv ≥ kLiveSession then t.onEof
      else t.keepalive P env.now) := by
    split
    · exact advances_onEof t
    · exact advances_keepalive P t env.now
  obtain ⟨v, hemits, hv⟩ := h t hs
  obtain ⟨es, hes, hemits'⟩ := hadv.emits
  intro t' ht'
  cases ht'
  refine ⟨v, ?_, fun hhs => ?_⟩
  · rw [hes]
    exact hemits.append hemits'
  · have hstate := (hv hhs).1
    rw [hup] at hstate
    cases hstate

theorem Rests.onRelayed (h : Rests Q e) (n : AttemptNonce) (cands : List Candidate) (io : Io) :
    Follows Q e (e.onRelayed P env n cands io) ∧ Rests Q (e.onRelayed P env n cands io) := by
  have hcands : Rests Q (e.withCands cands) := h.of_peer rfl rfl
  have hsame : Follows Q e (e.withCands cands) := .of_eq rfl rfl
  rcases Entry.onRelayed_cases P env e n cands io with
    heq | ⟨t, -, -, heq⟩ | ⟨self, -, hclosed, heq⟩ | ⟨t, hs, hup, heq⟩
  · rw [heq]
    exact ⟨.refl e, h⟩
  · rw [heq]
    exact ⟨hsame, hcands⟩
  · rw [heq]
    refine ⟨hsame.trans (follows_meetIntro self n), hcands.of_past (sess_meetIntro self n) ?_⟩
    intro t ht
    rw [hclosed t ht]
    exact TcpState.noConfusion
  · rw [heq]
    obtain ⟨hfollows, hrests⟩ := (hcands.keepIntro P hs hup n).drivePeer P io
    exact ⟨hsame.trans (Follows.trans (.of_eq rfl rfl) hfollows), hrests⟩

theorem attempt_heardSession (self peer : DevId) (c : Entry.Connection) :
    (Entry.heardSession P env self peer c).attempt = c.attempt := by
  have hnew : (Entry.newSession P env self peer c).attempt = c.attempt := by
    unfold Entry.newSession
    split
    · unfold initiate
      simp only
      split
      · exact (advances_fail _ _).attempt
      · rfl
    · rfl
  unfold Entry.heardSession
  simp only
  split
  · exact hnew
  · exact (advances_onBytes P _ env.now _).attempt.trans hnew

/-- `start_session`, for a connection made under the peer's attempt. -/
theorem follows_startSession {c : Entry.Connection} (hrests : Rests Q e)
    (hQ : Q e.peer.attempt c.attempt) (io : Io) :
    Follows Q e (e.startSession P env c io) ∧ Rests Q (e.startSession P env c io) := by
  unfold Entry.startSession
  cases env.self with
  | none => exact ⟨.refl e, hrests⟩
  | some self =>
      have hpeer := Entry.beginSession_peer P env e self c
      have hattempt : (e.beginSession P env self c).peer.attempt = e.peer.attempt := by rw [hpeer]
      have howes : Owes Q (e.beginSession P env self c) := by
        intro t ht
        rw [hpeer] at ht
        cases ht
        refine ⟨.handshaking, emits_heardSession P self e.peer.devId c, fun _ => ?_⟩
        rw [hattempt, attempt_heardSession]
        exact hQ
      obtain ⟨hfollows, hrests'⟩ := howes.drivePeer P io
      refine ⟨Follows.trans (.of_eq ?_ hattempt) hfollows, hrests'⟩
      rw [Entry.beginSession_effects]

theorem farewell_frame (reason : UInt16) (sends : List SendResult) :
    (e.farewell P reason sends).effects = e.effects ∧
      (e.farewell P reason sends).peer.attempt = e.peer.attempt := by
  unfold Entry.farewell
  split
  · exact ⟨rfl, rfl⟩
  · rename_i t hs
    have hqueue := Entry.queueOutput_minor e hs (advances_close P t reason)
    have hflush := hqueue.trans (Entry.flushPeer_minor _ sends)
    exact ⟨hflush.effects, hflush.attempt⟩

/-- All that `disconnect_peer` does to the tables. -/
theorem disconnectPeer_effects (reason : UInt16) (sends : List SendResult) :
    (e.disconnectPeer P reason sends).effects =
      e.effects ++ (e.peer.attempt.map Effect.erase).toList := by
  obtain ⟨heffects, hattempt⟩ := @farewell_frame P e reason sends
  have hdrop : (e.farewell P reason sends).endAttempt.dgramDrop.effects =
      e.effects ++ (e.peer.attempt.map Effect.erase).toList := by
    rw [Entry.dgramDrop_effects, Entry.endAttempt_effects, heffects, hattempt]
  unfold Entry.disconnectPeer
  simp only
  generalize (e.farewell P reason sends).endAttempt.dgramDrop = e₁ at hdrop ⊢
  have hreport : ∀ b : Bool, (if b then e₁.defer (.peerClosed .local) else e₁).effects =
      e.effects ++ (e.peer.attempt.map Effect.erase).toList := by
    intro b
    cases b <;> exact hdrop
  split
  · rw [Entry.setPeerState_effects]
    exact hreport _
  · exact hreport _

/-- `disconnect_peer` ends the attempt. -/
theorem follows_disconnectPeer (reason : UInt16) (sends : List SendResult) :
    Follows Q e (e.disconnectPeer P reason sends) ∧
      (e.disconnectPeer P reason sends).peer.attempt = none := by
  obtain ⟨heffects, hattempt⟩ := @farewell_frame P e reason sends
  have hbye : Follows Q e (e.farewell P reason sends) := .of_eq heffects hattempt
  have hdrop := hbye.trans ((follows_endAttempt _).trans (Entry.dgramDrop_minor _).follows)
  have hnone : (e.farewell P reason sends).endAttempt.dgramDrop.peer.attempt = none := by
    rw [Entry.dgramDrop_peer, Entry.endAttempt_peer]
  unfold Entry.disconnectPeer
  simp only
  generalize (e.farewell P reason sends).endAttempt.dgramDrop = e₁ at hdrop hnone ⊢
  have hreport : ∀ b : Bool, Follows Q e (if b then e₁.defer (.peerClosed .local) else e₁) ∧
      (if b then e₁.defer (.peerClosed .local) else e₁).peer.attempt = none := by
    intro b
    cases b
    · exact ⟨hdrop, hnone⟩
    · exact ⟨hdrop.trans (.of_eq rfl rfl), hnone⟩
  generalize decide (e.peer.state = .connected) = wasUp
  obtain ⟨hfollows, hattempt⟩ := hreport wasUp
  split
  · refine ⟨hfollows.trans (follows_setPeerState _ _), ?_⟩
    rw [Entry.setPeerState_peer]
    exact hattempt
  · exact ⟨hfollows, hattempt⟩

/-- Every call on a peer tells of every change to its attempt and every session
that comes up. -/
theorem Rests.act (h : Rests Q e) (a : PeerAct) :
    Follows Q e (e.act P env a) ∧ Rests Q (e.act P env a) := by
  have hminor : ∀ {e'}, Minor Steady e e' → Follows Q e e' ∧ Rests Q e' :=
    fun hm => ⟨hm.follows, h.minor hm⟩
  cases a with
  | learn cands =>
      unfold Entry.act
      simp only
      split
      · exact ⟨.refl e, h⟩
      · exact ⟨.of_eq rfl rfl, h.of_peer rfl rfl⟩
  | discovered cands stale =>
      have hcands : Rests Q (e.withCands cands) := h.of_peer rfl rfl
      have hsame : Follows Q e (e.withCands cands) := .of_eq rfl rfl
      unfold Entry.act
      simp only
      split
      · exact ⟨.refl e, h⟩
      · split
        · exact ⟨hsame, hcands⟩
        · exact ⟨hsame.trans (follows_beginConnect env _), hcands.beginConnect⟩
  | connect => exact ⟨follows_beginConnect env e, h.beginConnect⟩
  | relayed attempt cands io => exact h.onRelayed P attempt cands io
  | relayRefused =>
      unfold Entry.act
      simp only
      split
      · rename_i hs
        refine ⟨(follows_endAttempt e).trans (follows_setPeerState _ _), rests_none ?_⟩
        rw [Entry.setPeerState_peer, Entry.endAttempt_peer]
        simpa using hs
      · exact ⟨.refl e, h⟩
  | drive io => exact h.owes.drivePeer P io
  | driveOffer udp offer => exact hminor (Entry.driveOffer_minor P env.cfg e env.now udp offer)
  | send kind body sends => exact hminor (Entry.sendRecord_minor P e env.now kind body sends)
  | openDatagrams fb => exact hminor (Entry.openDatagrams_minor P env.cfg e env.now fb).steady
  | closeDatagrams sends => exact hminor (Entry.closeDatagrams_minor P e env.now sends)
  | sendDatagramsOverTcp => exact hminor (Entry.sendDatagramsOverTcp_minor e).steady
  | udpActs path sess => exact hminor (Entry.udpActs_minor e path sess).steady

end Sessions

end UConnect.Node
