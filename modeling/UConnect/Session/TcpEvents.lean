/-
  Session/TcpEvents.lean --- the events of a session follow its state.

  A session is `Established` at most once, and says so before its first record;
  it is closed at most once, and says nothing after that.  `Advances` is what
  every call keeps: the events it adds lead from the state before it to the
  state after it.

  A call only appends to the queue of events.  So the order of all that is ever
  reported is the order in which the calls reported it, whenever the queue was
  drained.
-/
import UConnect.Session.TcpChunking

set_option autoImplicit false

namespace UConnect

open UConnect.Foundation UConnect.Crypto

namespace TcpSession

/-- Events on the way from one state to another. -/
inductive Emits : TcpState → List TcpEvent → TcpState → Prop where
  | nil (st : TcpState) : Emits st [] st
  | established {es : List TcpEvent} {st : TcpState} (h : Emits .established es st) :
      Emits .handshaking (.established :: es) st
  | record {es : List TcpEvent} {st : TcpState} (kind : UInt8) (body : Bytes)
      (h : Emits .established es st) : Emits .established (.record kind body :: es) st
  | closed {st : TcpState} (h : st ≠ .closed) (cause : CloseCause) (peerReason : Nat) :
      Emits st [.closed cause peerReason] .closed

/-- Two runs of events, one behind the other. -/
theorem Emits.append {a b c : TcpState} {xs ys : List TcpEvent} (hx : Emits a xs b)
    (hy : Emits b ys c) : Emits a (xs ++ ys) c := by
  induction hx with
  | nil st => exact hy
  | established h ih => exact .established (ih hy)
  | record kind body h ih => exact .record kind body (ih hy)
  | closed h cause peerReason =>
      -- nothing comes after a close
      cases hy with
      | nil => exact .closed h cause peerReason
      | closed h' => exact absurd rfl h'

/-- The calls between two states of a session added events that lead there, and
left the attempt and the roles alone. -/
structure Advances (s s' : TcpSession) : Prop where
  emits : ∃ es, s'.events = s.events ++ es ∧ Emits s.state es s'.state
  attempt : s'.attempt = s.attempt

theorem Advances.of_eq {s s' : TcpSession} (hstate : s'.state = s.state)
    (hevents : s'.events = s.events) (hattempt : s'.attempt = s.attempt) : Advances s s' := by
  refine ⟨⟨[], ?_, ?_⟩, hattempt⟩
  · rw [hevents, List.append_nil]
  · rw [hstate]
    exact .nil _

theorem Advances.refl (s : TcpSession) : Advances s s := .of_eq rfl rfl rfl

theorem Advances.trans {s s' s'' : TcpSession} (h : Advances s s') (h' : Advances s' s'') :
    Advances s s'' := by
  obtain ⟨es, hes, hemits⟩ := h.emits
  obtain ⟨es', hes', hemits'⟩ := h'.emits
  refine ⟨⟨es ++ es', ?_, hemits.append hemits'⟩, h'.attempt.trans h.attempt⟩
  rw [hes', hes, List.append_assoc]

/-- One event that leads to the new state. -/
theorem Advances.one {s s' : TcpSession} {ev : TcpEvent} (hevents : s'.events = s.events ++ [ev])
    (hemits : Emits s.state [ev] s'.state) (hattempt : s'.attempt = s.attempt) :
    Advances s s' :=
  ⟨⟨[ev], hevents, hemits⟩, hattempt⟩

section Calls

variable (P : Primitives) (s : TcpSession) (now : Instant)

theorem advances_fail (cause : CloseCause) : Advances s (s.fail cause) := by
  unfold fail
  split
  · exact .refl s
  · rename_i hlive
    exact .one rfl (.closed hlive cause 0) rfl

theorem advances_onEof : Advances s s.onEof := by
  unfold onEof
  split
  · exact advances_fail s .timedOut
  · exact .refl s

theorem state_onEof : s.onEof.state = .closed := by
  unfold onEof
  split
  · unfold fail
    split
    · assumption
    · rfl
  · rename_i hclosed
    simpa using hclosed

theorem advances_onTimeout : Advances s (s.onTimeout P now) := by
  unfold onTimeout
  split
  · split
    · exact advances_fail s .timedOut
    · exact .refl s
  · split
    · exact advances_fail s .timedOut
    · split
      · exact .of_eq rfl rfl rfl
      · exact .refl s
  · exact .refl s

theorem advances_send (kind : UInt8) (body : Bytes) : Advances s (s.send P kind body now).2 := by
  unfold send
  split
  · exact .refl s
  · exact .of_eq rfl rfl rfl

theorem advances_keepalive : Advances s (s.keepalive P now) := by
  unfold keepalive
  split
  · exact .refl s
  · exact .of_eq rfl rfl rfl

theorem advances_close (reason : UInt16) : Advances s (s.close P reason) := by
  unfold close
  split
  · exact .refl s
  · rename_i hlive
    simp only
    split
    · exact .one rfl (.closed hlive .local 0) rfl
    · exact .one rfl (.closed hlive .local 0) rfl

/-- The end of a handshake. -/
theorem advances_finish (hhs : s.state = .handshaking) (split : Split) :
    Advances s (s.finish split now) := by
  refine Advances.one rfl ?_ rfl
  rw [hhs]
  exact .established (.nil _)

theorem advances_onMessage1 (hhs : s.state = .handshaking) (frame : Bytes) :
    Advances s (s.onMessage1 P frame now) := by
  unfold onMessage1
  split
  · exact advances_fail s .local
  · split
    · exact advances_fail s .local
    · split
      · exact advances_fail s .local
      · split
        · exact advances_fail s .local
        · refine Advances.trans ?_ (advances_finish _ now ?_ _)
          · exact .of_eq rfl rfl rfl
          · exact hhs

theorem advances_onMessage2 (hhs : s.state = .handshaking) (frame : Bytes) :
    Advances s (s.onMessage2 P frame now) := by
  unfold onMessage2
  split
  · exact advances_fail s .local
  · split
    · exact advances_fail s .local
    · exact advances_finish s now hhs _

theorem advances_handleRecord (hest : s.state = .established) (plain : Bytes) :
    Advances s (s.handleRecord plain) := by
  unfold handleRecord
  split
  · exact .refl s
  · split
    · exact .refl s
    · split
      · refine Advances.one rfl ?_ rfl
        rw [hest]
        exact .closed TcpState.noConfusion .peerNotice _
      · split
        · exact .refl s
        · refine Advances.one rfl ?_ rfl
          simp only [hest]
          exact .record _ _ (.nil _)

theorem advances_onRecord (hest : s.state = .established) (ct : Bytes) :
    Advances s (s.onRecord P ct now) := by
  unfold onRecord
  split
  · exact advances_fail s .local
  · refine Advances.trans ?_ (advances_handleRecord _ ?_ _)
    · exact .of_eq rfl rfl rfl
    · exact hest

/-- A frame is of the kind the state calls for. -/
theorem nextFrame_kind {buf rest : Bytes} {f : Frame} (h : s.nextFrame buf = some (f, rest)) :
    (∀ body, f = .message body → s.state = .handshaking) ∧
      (∀ body, f = .record body → s.state = .established) := by
  have hprefixed : ∀ {width : Nat} {bad : Nat → Bool} {frame : Bytes → Frame},
      prefixed width bad frame buf = some (f, rest) → f = .bad ∨ ∃ body, f = frame body := by
    intro width bad frame hp
    unfold prefixed at hp
    split at hp
    · cases hp
    · simp only at hp
      split at hp
      · cases hp
        exact Or.inl rfl
      · split at hp
        · cases hp
        · cases hp
          exact Or.inr ⟨_, rfl⟩
  unfold nextFrame at h
  split at h
  · cases h
  · rename_i hstate
    refine ⟨fun _ _ => hstate, ?_⟩
    rintro body rfl
    split at h
    · split at h
      · cases h
      · split at h <;> cases h
    · rcases hprefixed h with hb | ⟨_, hb⟩ <;> cases hb
  · rename_i hstate
    refine ⟨?_, fun _ _ => hstate⟩
    rintro body rfl
    rcases hprefixed h with hb | ⟨_, hb⟩ <;> cases hb

/-- One frame, of whatever kind the state allows. -/
theorem advances_act {buf rest : Bytes} {f : Frame} (h : s.nextFrame buf = some (f, rest)) :
    Advances s (s.act P f now) := by
  obtain ⟨hmessage, hrecord⟩ := s.nextFrame_kind h
  cases f with
  | hello => exact .refl s
  | bad => exact advances_fail s .local
  | message body =>
      unfold act
      simp only
      split
      · exact advances_onMessage2 P s now (hmessage body rfl) body
      · exact advances_onMessage1 P s now (hmessage body rfl) body
  | record body => exact advances_onRecord P s now (hrecord body rfl) body

/-- A read in any pieces advances, from one round of the loop. -/
theorem advances_onBytes (bytes : Bytes) : Advances s (s.onBytes P bytes now) := by
  have hstep : ∀ (t : TcpSession) (b : Bytes) (f : Frame) (r : Bytes) (now : Instant),
      t.state ≠ .closed → Advances s t → t.nextFrame b = some (f, r) →
      Advances s ((t.act P f now).withIn []) := by
    intro t b f r now _ ht hnext
    exact (ht.trans (advances_act P t now hnext)).trans (.of_eq rfl rfl rfl)
  have hinv := @onBytes_invariant P (fun t _ => Advances s t) (fun _ _ _ _ ht => ht) hstep s bytes
    [] now (.of_eq rfl rfl rfl)
  exact hinv.trans (.of_eq rfl rfl rfl)

theorem advances_datagramKeys (epoch : Nat) : Advances s (s.datagramKeys P epoch).2 := by
  have hiter : ∀ n, Advances s ((advanceExported P)^[n] s) := by
    intro n
    induction n with
    | zero => exact .refl s
    | succ n ih =>
        rw [Function.iterate_succ_apply']
        exact ih.trans (.of_eq rfl rfl rfl)
  unfold datagramKeys
  split
  · exact .refl s
  · exact (hiter _).trans (.of_eq rfl rfl rfl)

end Calls

end TcpSession

end UConnect
