/-
  Node/DriveFrame.lean --- what becomes of a session while its peer is driven.

  Source: src/api/node.cpp, `drive_peer` and `flush_peer`.

  Polling a session's events does not change the session itself, apart from the
  keys a datagram channel takes from it; a write that fails ends it.  Nothing
  here is about the attempt or what the callbacks are told.

  There are two results: what `drive_peer` does where the peer has no session,
  and the session it has at the end where it has one.
-/
import UConnect.Node.DrivePeer
import UConnect.Node.PeerFrame

set_option autoImplicit false

namespace UConnect.Node

open UConnect.Foundation UConnect.Crypto UConnect.Wire TcpSession

/-! ## Writes that fail

The one write of a drive, and what it does to the session when the socket
refuses. -/

/-- Does a write of `flush_peer` fail, with `n` bytes to write? -/
def flushFails : List SendResult → Nat → Bool
  | [], _ => false
  | r :: rs, n =>
      if n = 0 then false
      else
        match r with
        | .error => true
        | .wrote k => if k = 0 then false else flushFails rs (n - k)

namespace Entry

/-- Does `flush_peer` tell the session of a failed write? -/
def writeFails (e : Entry) (sends : List SendResult) : Bool :=
  e.peer.sockOpen && flushFails sends e.peer.out.length

end Entry

section Writes

variable {e : Entry} {t : TcpSession}

/-- `flush_peer` tells the session of a write that fails, and of nothing else. -/
theorem sess_flushPeer (rs : List SendResult) (e : Entry) :
    (Entry.flushPeer rs e).2.peer.sess =
      if e.writeFails rs then e.peer.sess.map onEof else e.peer.sess := by
  induction rs generalizing e with
  | nil => simp [Entry.flushPeer, Entry.writeFails, flushFails]
  | cons r rs ih =>
      unfold Entry.flushPeer
      split
      · rename_i hshut
        have hnone : e.writeFails (r :: rs) = false := by
          rcases Bool.or_eq_true_iff.mp hshut with hout | hsock
          · simp [Entry.writeFails, flushFails, of_decide_eq_true hout]
          · simp [Entry.writeFails, (Bool.not_eq_true _).mp (by simpa using hsock)]
        rw [hnone]
        rfl
      · rename_i hopen
        simp only [Bool.or_eq_true, decide_eq_true_eq, not_or, Bool.not_eq_true',
          Bool.not_eq_false] at hopen
        have hpos : e.peer.out.length ≠ 0 := fun hz => hopen.1 (List.length_eq_zero_iff.mp hz)
        cases r with
        | error => simp [Entry.writeFails, flushFails, hopen]
        | wrote n =>
            rcases Decidable.em (n = 0) with hn | hn
            · simp [Entry.writeFails, flushFails, hn]
            · simp only [if_neg hn]
              rw [ih]
              simp [Entry.writeFails, flushFails, hopen, hn]

theorem deferred_flushPeer (rs : List SendResult) (e : Entry) :
    (Entry.flushPeer rs e).2.deferred = e.deferred := by
  induction rs generalizing e with
  | nil => rfl
  | cons r rs ih =>
      unfold Entry.flushPeer
      split
      · rfl
      · split
        · rfl
        · split
          · rfl
          · exact ih _

theorem driveOutput_eq (hs : e.peer.sess = some t) (sends : List SendResult) :
    e.driveOutput sends =
      let e' := (Entry.flushPeer sends (e.queueOutput t)).2
      if e'.peer.sess.any fun s => s.state = .closed then
        { e' with peer := { e'.peer with sockOpen := false, sess := none, out := [] } }
      else e' := by
  unfold Entry.driveOutput
  rw [hs]
  rfl

/-- After the last write the session is there unless it has ended, before the
write or by it. -/
theorem sess_driveOutput (hs : e.peer.sess = some t) (sends : List SendResult) :
    (e.driveOutput sends).peer.sess =
      if t.state = .closed ∨ (e.queueOutput t).writeFails sends = true then none
      else some t.takeOutput.2 := by
  have hsess := sess_flushPeer sends (e.queueOutput t)
  rw [driveOutput_eq hs]
  simp only
  generalize (Entry.flushPeer sends (e.queueOutput t)).2 = e' at hsess ⊢
  cases hfails : (e.queueOutput t).writeFails sends with
  | false =>
      rw [hfails, if_neg Bool.false_ne_true] at hsess
      have hany : (e'.peer.sess.any fun s => decide (s.state = .closed)) =
          decide (t.state = .closed) := by
        rw [hsess]
        rfl
      rw [hany]
      rcases Decidable.em (t.state = .closed) with hclosed | hlive
      · rw [if_pos (decide_eq_true hclosed), if_pos (Or.inl hclosed)]
      · rw [if_neg (by simpa using hlive), if_neg (by simpa using hlive)]
        exact hsess
  | true =>
      rw [hfails, if_pos rfl] at hsess
      have hany : (e'.peer.sess.any fun s => decide (s.state = .closed)) = true := by
        rw [hsess]
        simp only [Entry.queueOutput, Option.map_some, Option.any_some, decide_eq_true_eq]
        exact state_onEof _
      rw [if_pos hany, if_pos (Or.inr rfl)]

/-- The last write is about the socket and the session only. -/
theorem driveOutput_frame (sends : List SendResult) :
    (e.driveOutput sends).peer.state = e.peer.state ∧
      (e.driveOutput sends).peer.attempt = e.peer.attempt ∧
      (e.driveOutput sends).deferred = e.deferred ∧
      (e.driveOutput sends).effects = e.effects := by
  cases hs : e.peer.sess with
  | none => simp [Entry.driveOutput, hs]
  | some t =>
      have hminor := Entry.flushPeer_minor (e.queueOutput t) sends
      have hdeferred := deferred_flushPeer sends (e.queueOutput t)
      rw [driveOutput_eq hs]
      simp only
      split
      · exact ⟨hminor.state, hminor.attempt, hdeferred, hminor.effects⟩
      · exact ⟨hminor.state, hminor.attempt, hdeferred, hminor.effects⟩

end Writes

/-! ## Without a session

The attempt's part of a drive neither makes a session nor needs one. -/

section Idle

variable {env : Env} {e : Entry}

theorem sess_beginConnect (hs : e.peer.sess = none) : (e.beginConnect env).peer.sess = none := by
  rcases Entry.beginConnect_cases env e with heq | ⟨-, -, heq⟩
  · rw [heq]
    exact hs
  · rw [heq, Entry.adoptAttempt_peer]
    exact hs

/-- The retry is for a peer without a session. -/
theorem driveRetry_of_sess {t : TcpSession} (hs : e.peer.sess = some t) :
    e.driveRetry env = e := by
  unfold Entry.driveRetry
  rw [if_neg (by simp [hs])]

theorem sess_driveRetry (hs : e.peer.sess = none) : (e.driveRetry env).peer.sess = none := by
  unfold Entry.driveRetry
  split
  · simp only
    split
    · rw [Entry.setPeerState_peer]
      exact sess_beginConnect hs
    · exact sess_beginConnect hs
  · exact hs

theorem sess_driveDial (hs : e.peer.sess = none) : (e.driveDial env).peer.sess = none := by
  obtain ⟨_, _, _, hpeer⟩ := Entry.driveReach_peer env e
  have hsess : (e.driveReach env).peer.sess = none := by
    rw [hpeer]
    exact hs
  unfold Entry.driveDial
  simp only
  split
  · rw [Entry.setPeerState_peer, Entry.endAttempt_peer]
    exact hsess
  · exact hsess

/-- A peer without a session is dialed, retried or left alone. -/
theorem drivePeer_of_none (P : Primitives) (io : Io) (hs : e.peer.sess = none) :
    e.drivePeer P env io = e.driveRetry env ∨
      e.drivePeer P env io = (e.driveRetry env).driveDial env := by
  have hnone := @sess_driveRetry env e hs
  unfold Entry.drivePeer
  simp only [hnone]
  split
  · exact Or.inr rfl
  · exact Or.inl rfl

end Idle

/-! ## The event loop

Polling hands out events and changes nothing in the session that has them. -/

section Events

variable (P : Primitives) {env : Env} {e : Entry} {io : Io}

theorem sess_onEstablished : e.onEstablished.peer.sess = e.peer.sess := by
  unfold Entry.onEstablished
  cases hs : e.peer.sess <;> simp [hs]

theorem sess_onGone (wasUp : Bool) : (e.onGone env wasUp).peer.sess = e.peer.sess := by
  rcases Entry.onGone_cases env e wasUp with ⟨r, ra, h⟩ | h | ⟨n, -, h⟩
  · rw [h]
    simp [Entry.dropIntro]
  · rw [h]
    simp [Entry.dropIntro]
  · rw [h]
    simp [Entry.dropIntro, Entry.adoptAttempt_peer]

theorem sess_onClosed (cause : CloseCause) (peerReason : Nat) :
    (e.onClosed env cause peerReason).peer.sess = e.peer.sess := by
  rcases Entry.onClosed_cases env e cause peerReason with ⟨-, h⟩ | h
  · rw [h, Entry.setPeerState_peer, Entry.reportClosed_peer]
  · rw [h, sess_onGone, Entry.reportClosed_peer]

/-- Handling an event leaves the session's state and queue alone. -/
theorem goes_onEvent (ev : TcpEvent) : Goes Kept e.peer.sess (e.onEvent P env ev).peer.sess := by
  cases ev with
  | established =>
      change Goes Kept e.peer.sess e.onEstablished.peer.sess
      rw [sess_onEstablished]
      exact .refl _
  | record kind body => exact (Entry.onRecord_minor P env.cfg e env.now kind body).sess
  | closed cause peerReason =>
      change Goes Kept e.peer.sess (e.onClosed env cause peerReason).peer.sess
      rw [sess_onClosed]
      exact .refl _

theorem goes_onEvents (evs : List TcpEvent) :
    Goes Kept e.peer.sess (evs.foldl (Entry.onEvent P env) e).peer.sess := by
  induction evs generalizing e with
  | nil => exact .refl _
  | cons ev evs ih => exact (goes_onEvent P ev).trans ih

theorem advances_readSession (now : Instant) (n : Nat) (rs : List RecvResult) (s : TcpSession) :
    Advances s (Entry.readSession P now n rs s) := by
  induction n generalizing rs s with
  | zero => exact .refl s
  | succ n ih =>
      cases rs with
      | nil => exact .refl s
      | cons r rs =>
          unfold Entry.readSession
          split
          · exact .refl s
          · split
            · exact advances_onEof s
            · exact .refl s
            · exact (advances_onBytes P s now _).trans (ih rs _)

/-- The session while its events are polled: what it read and its timers come
first. -/
def polledSession (env : Env) (t : TcpSession) (recvs : List RecvResult) : TcpSession :=
  (Entry.readSession P env.now 16 recvs t).onTimeout P env.now

theorem advances_polledSession (t : TcpSession) (recvs : List RecvResult) :
    Advances t (polledSession P env t recvs) :=
  (advances_readSession P env.now 16 recvs t).trans (advances_onTimeout P _ env.now)

/-- After the event loop the queue is empty. -/
theorem sess_driveEvents (t : TcpSession) (recvs : List RecvResult) :
    ∃ t', (e.driveEvents P env t recvs).peer.sess = some t' ∧ t'.events = [] ∧
      t'.state = (polledSession P env t recvs).state ∧ t'.attempt = t.attempt := by
  have hgoes := @goes_onEvents P env
    { e with
      peer := { e.peer with sess := some { polledSession P env t recvs with events := [] } } }
    (polledSession P env t recvs).events
  change Goes Kept (some { polledSession P env t recvs with events := [] })
    (e.driveEvents P env t recvs).peer.sess at hgoes
  generalize (e.driveEvents P env t recvs).peer.sess = o at hgoes ⊢
  cases hgoes with
  | some hkept =>
      refine ⟨_, rfl, hkept.events, hkept.state, ?_⟩
      exact hkept.attempt.trans (advances_polledSession P t recvs).attempt

theorem drivePeer_of_sess {t : TcpSession} (hs : e.peer.sess = some t) :
    e.drivePeer P env io = (e.driveEvents P env t io.recvs).driveOutput io.sends := by
  unfold Entry.drivePeer
  simp only [driveRetry_of_sess hs, hs, Option.isNone_some, Bool.and_false, Bool.false_eq_true,
    if_false]

/-- A new session, which may have heard something already. -/
theorem emits_heardSession (self peer : DevId) (c : Entry.Connection) :
    Emits .handshaking (Entry.heardSession P env self peer c).events
      (Entry.heardSession P env self peer c).state := by
  have hnew : Emits .handshaking (Entry.newSession P env self peer c).events
      (Entry.newSession P env self peer c).state := by
    unfold Entry.newSession
    split
    · unfold initiate
      simp only
      split
      · exact .closed TcpState.noConfusion .local 0
      · exact .nil _
    · exact .nil _
  unfold Entry.heardSession
  simp only
  split
  · exact hnew
  · obtain ⟨es, hes, hemits⟩ :=
      (advances_onBytes P (Entry.newSession P env self peer c) env.now c.received).emits
    rw [hes]
    exact hnew.append hemits

end Events

end UConnect.Node
