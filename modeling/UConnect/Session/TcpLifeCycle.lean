/-
  Session/TcpLifeCycle.lean --- the life of a session, from its factory to its
  end.

  Source: src/session/tcp_session.cpp.

  Over a whole run the events are an `Established`, records and a `Closed`, in
  that order and each part optional, and the state is the one they lead to.  A
  closed session writes no more and holds no secret.  Closing is done in four
  places that each clear a part of the state: `Tidy` is what they keep between
  them.
-/
import UConnect.Session.TcpEvents

set_option autoImplicit false

namespace UConnect

open UConnect.Foundation UConnect.Crypto

namespace TcpSession

variable {P : Primitives} {s : TcpSession}

/-! ## Secrets

Handshake, ciphers and exported secret, and what is left of them in each state. -/

/-- Nothing secret is left. -/
structure Cleared (s : TcpSession) : Prop where
  sendCs : s.sendCs = {}
  recvCs : s.recvCs = {}
  hs : s.hs = none
  exported : s.exported = Vector.replicate 32 0

/-- The handshake state goes with the handshake, the other secrets with the
session. -/
structure Tidy (s : TcpSession) : Prop where
  handshake : s.state = .established → s.hs = none
  closed : s.state = .closed → Cleared s

theorem Tidy.of_cleared (h : Cleared s) : Tidy s := ⟨fun _ => h.hs, fun _ => h⟩

theorem Tidy.of_established (hstate : s.state = .established) (hhs : s.hs = none) : Tidy s := by
  refine ⟨fun _ => hhs, fun hclosed => ?_⟩
  rw [hstate] at hclosed
  cases hclosed

theorem Tidy.of_handshaking (hstate : s.state = .handshaking) : Tidy s := by
  constructor
  · intro hest
    rw [hstate] at hest
    cases hest
  · intro hclosed
    rw [hstate] at hclosed
    cases hclosed

/-- A call that changes neither the state nor a secret. -/
theorem Tidy.congr {t : TcpSession} (h : Tidy s) (hstate : t.state = s.state) (hhs : t.hs = s.hs)
    (hsend : t.sendCs = s.sendCs) (hrecv : t.recvCs = s.recvCs)
    (hexported : t.exported = s.exported) : Tidy t := by
  refine ⟨fun hest => ?_, fun hclosed => ?_⟩
  · rw [hhs]
    exact h.handshake (hstate.symm.trans hest)
  · obtain ⟨h1, h2, h3, h4⟩ := h.closed (hstate.symm.trans hclosed)
    exact ⟨hsend.trans h1, hrecv.trans h2, hhs.trans h3, hexported.trans h4⟩

theorem Tidy.fail (h : Tidy s) (cause : CloseCause) : Tidy (s.fail cause) := by
  unfold TcpSession.fail
  split
  · exact h
  · exact .of_cleared ⟨rfl, rfl, rfl, rfl⟩

/-- A call of an established session that leaves it established. -/
theorem Tidy.stays {t : TcpSession} (h : Tidy s) (hest : s.state = .established)
    (hstate : t.state = s.state) (hhs : t.hs = s.hs) : Tidy t :=
  .of_established (hstate.trans hest) (hhs.trans (h.handshake hest))

theorem Tidy.close (h : Tidy s) (reason : UInt16) : Tidy (s.close P reason) := by
  unfold TcpSession.close
  split
  · exact h
  · exact .of_cleared ⟨rfl, rfl, rfl, rfl⟩

theorem Tidy.onTimeout (h : Tidy s) (now : Instant) : Tidy (s.onTimeout P now) := by
  unfold TcpSession.onTimeout
  split
  · split
    · exact h.fail .timedOut
    · exact h
  · rename_i hest
    split
    · exact h.fail .timedOut
    · split
      · exact h.stays hest rfl rfl
      · exact h
  · exact h

theorem Tidy.onMessage1 (h : Tidy s) (frame : Bytes) (now : Instant) :
    Tidy (s.onMessage1 P frame now) := by
  unfold TcpSession.onMessage1
  split
  · exact h.fail .local
  · split
    · exact h.fail .local
    · split
      · exact h.fail .local
      · split
        · exact h.fail .local
        · exact .of_established rfl rfl

theorem Tidy.onMessage2 (h : Tidy s) (frame : Bytes) (now : Instant) :
    Tidy (s.onMessage2 P frame now) := by
  unfold TcpSession.onMessage2
  split
  · exact h.fail .local
  · split
    · exact h.fail .local
    · exact .of_established rfl rfl

/-- The received `Close` leaves the handshake state alone, which is gone by
then. -/
theorem Tidy.handleRecord (h : Tidy s) (hest : s.state = .established) (plain : Bytes) :
    Tidy (s.handleRecord plain) := by
  unfold TcpSession.handleRecord
  split
  · exact h
  · split
    · exact h
    · split
      · exact .of_cleared ⟨rfl, rfl, h.handshake hest, rfl⟩
      · split
        · exact h
        · exact h.stays hest rfl rfl

theorem Tidy.onRecord (h : Tidy s) (hest : s.state = .established) (ct : Bytes)
    (now : Instant) : Tidy (s.onRecord P ct now) := by
  unfold TcpSession.onRecord
  split
  · exact h.fail .local
  · apply Tidy.handleRecord
    · exact h.stays hest rfl rfl
    · exact hest

theorem Tidy.act (h : Tidy s) {buf rest : Bytes} {f : Frame}
    (hnext : s.nextFrame buf = some (f, rest)) (now : Instant) : Tidy (s.act P f now) := by
  cases f with
  | hello => exact h
  | bad => exact h.fail .local
  | message body =>
      unfold TcpSession.act
      dsimp only
      split
      · exact h.onMessage2 body now
      · exact h.onMessage1 body now
  | record body => exact h.onRecord ((s.nextFrame_kind hnext).2 body rfl) body now

theorem Tidy.onBytes (h : Tidy s) (bytes : Bytes) (now : Instant) :
    Tidy (s.onBytes P bytes now) := by
  have hinv := @onBytes_invariant P (fun t _ => Tidy t) (fun _ _ _ _ ht => ht)
    (fun t b f r now _ ht hnext => (ht.act hnext now).congr rfl rfl rfl rfl rfl) s bytes [] now
    (h.congr rfl rfl rfl rfl rfl)
  exact hinv.congr rfl rfl rfl rfl rfl

theorem Tidy.datagramKeys (h : Tidy s) (epoch : Nat) : Tidy (s.datagramKeys P epoch).2 := by
  have hiter : ∀ n, ((advanceExported P)^[n] s).state = s.state ∧
      ((advanceExported P)^[n] s).hs = s.hs := by
    intro n
    induction n with
    | zero => exact ⟨rfl, rfl⟩
    | succ n ih =>
        rw [Function.iterate_succ_apply']
        exact ih
  unfold TcpSession.datagramKeys
  split
  · exact h
  · rename_i hguard
    have hest : s.state = .established := by
      by_contra hother
      exact hguard (by simp [hother])
    exact h.stays hest (hiter _).1 (hiter _).2

theorem Tidy.step (h : Tidy s) (op : Op) : Tidy (s.step P op) := by
  cases op with
  | onBytes bytes now => exact h.onBytes bytes now
  | onEof =>
      simp only [TcpSession.step, TcpSession.onEof]
      split
      · exact h.fail .timedOut
      · exact h
  | onTimeout now => exact h.onTimeout now
  | send kind body now =>
      simp only [TcpSession.step, TcpSession.send]
      split
      · exact h
      · rename_i hguard
        have hest : s.state = .established := by
          by_contra hother
          exact hguard (by simp [hother])
        exact h.stays hest rfl rfl
  | close reason => exact h.close reason
  | keepalive now =>
      simp only [TcpSession.step, TcpSession.keepalive]
      split
      · exact h
      · rename_i hest
        exact h.stays (not_not.mp hest) rfl rfl
  | takeOutput => exact h.congr rfl rfl rfl rfl rfl
  | pollEvent =>
      simp only [TcpSession.step, TcpSession.pollEvent]
      split
      · exact h
      · exact h.congr rfl rfl rfl rfl rfl
  | datagramKeys epoch => exact h.datagramKeys epoch

/-! ## Events -/

/-- The event a call hands out. -/
def polled (s : TcpSession) : Op → List TcpEvent
  | .pollEvent => s.pollEvent.1.toList
  | _ => []

/-- The bytes a call hands out. -/
def taken (s : TcpSession) : Op → Bytes
  | .takeOutput => s.takeOutput.1
  | _ => []

/-- All events of a run, polled or not. -/
def emitted (P : Primitives) (s : TcpSession) (ops : List Op) : List TcpEvent :=
  ledger polled events (step P) s ops

/-- All output of a run, taken or not. -/
def written (P : Primitives) (s : TcpSession) (ops : List Op) : Bytes :=
  ledger taken out (step P) s ops

theorem Advances.keeps_events {s s' : TcpSession} (h : Advances s s') :
    ∃ es, [] ++ s'.events = s.events ++ es ∧ Emits s.state es s'.state := h.emits

/-- A call adds events that lead from the state before it to the state after it. -/
theorem step_emits (P : Primitives) (s : TcpSession) (op : Op) :
    ∃ es, polled s op ++ (s.step P op).events = s.events ++ es ∧
      Emits s.state es (s.step P op).state := by
  cases op with
  | onBytes bytes now => exact (advances_onBytes P s now bytes).keeps_events
  | onEof => exact (advances_onEof s).keeps_events
  | onTimeout now => exact (advances_onTimeout P s now).keeps_events
  | send kind body now => exact (advances_send P s now kind body).keeps_events
  | close reason => exact (advances_close P s reason).keeps_events
  | keepalive now => exact (advances_keepalive P s now).keeps_events
  | datagramKeys epoch => exact (advances_datagramKeys P s epoch).keeps_events
  | takeOutput => exact ⟨[], (List.append_nil _).symm, .nil _⟩
  | pollEvent =>
      refine ⟨[], ?_, ?_⟩
      · simp only [polled, step, pollEvent, List.append_nil]
        split
        · rename_i hnone
          simp [hnone]
        · rename_i hsome
          simp [hsome]
      · simp only [step, pollEvent]
        split
        · exact .nil _
        · exact .nil _

theorem emitted_emits (P : Primitives) (s : TcpSession) (ops : List Op) :
    ∃ es, emitted P s ops = s.events ++ es ∧ Emits s.state es (run (step P) s ops).state :=
  @ledger_grows _ _ _ polled (step P) events (fun s es t => Emits s.state es t.state)
    (fun _ => .nil _) (fun hx hy => hx.append hy) (step_emits P) s ops

/-- The events of a life: did it begin, its records, and how it ended. -/
structure Life where
  established : Bool
  records : List (UInt8 × Bytes)
  ended : Option (CloseCause × Nat)
  begun : established = false → records = []

namespace Life

/-- The events in order. -/
def events (l : Life) : List TcpEvent :=
  (if l.established then [.established] else []) ++ l.records.map (fun r => .record r.1 r.2) ++
    (l.ended.map fun c => .closed c.1 c.2).toList

/-- The state they lead to. -/
def state (l : Life) : TcpState :=
  if l.ended.isSome then .closed else if l.established then .established else .handshaking

end Life

/-- Events from an established session on are records, and a close at most. -/
theorem Emits.from_established {es : List TcpEvent} {st st' : TcpState} (h : Emits st es st')
    (hst : st = .established) : ∃ l : Life, l.established = true ∧
      .established :: es = l.events ∧ st' = l.state := by
  induction h with
  | nil st => exact ⟨⟨true, [], none, Bool.noConfusion⟩, rfl, rfl, hst⟩
  | established h ih => cases hst
  | record kind body h ih =>
      obtain ⟨⟨b, records, ended, hb⟩, rfl, hes, hstate⟩ := ih rfl
      refine ⟨⟨true, (kind, body) :: records, ended, Bool.noConfusion⟩, rfl, ?_, hstate⟩
      rw [List.tail_eq_of_cons_eq hes]
      rfl
  | closed h cause peerReason =>
      exact ⟨⟨true, [], some (cause, peerReason), Bool.noConfusion⟩, rfl, rfl, rfl⟩

/-- Events from a new session on are those of a life. -/
theorem Emits.life {es : List TcpEvent} {st : TcpState} (h : Emits .handshaking es st) :
    ∃ l : Life, es = l.events ∧ st = l.state := by
  cases h with
  | nil => exact ⟨⟨false, [], none, fun _ => rfl⟩, rfl, rfl⟩
  | established h =>
      obtain ⟨l, -, hes, hstate⟩ := h.from_established rfl
      exact ⟨l, hes, hstate⟩
  | closed h cause peerReason =>
      exact ⟨⟨false, [], some (cause, peerReason), fun _ => rfl⟩, rfl, rfl⟩

/-! ## Output

What goes onto the wire, seen over a run, and that it stops with the end. -/

/-- The bytes `seal` appends. -/
def sealed (P : Primitives) (s : TcpSession) (kind : UInt8) (body : Bytes) : Bytes :=
  let ct := (s.sendCs.encryptWithAd P [] (kind :: body)).1
  beBytes 4 ct.length ++ ct

theorem out_sealRecord (P : Primitives) (s : TcpSession) (kind : UInt8) (body : Bytes) :
    (s.sealRecord P kind body).out = s.out ++ sealed P s kind body :=
  List.append_assoc _ _ _

theorem sealed_ne_nil (P : Primitives) (s : TcpSession) (kind : UInt8) (body : Bytes) :
    sealed P s kind body ≠ [] := by
  intro hnil
  have hlen := congrArg List.length hnil
  simp [sealed] at hlen

/-- A closed session stays as it is, except that it can be emptied. -/
theorem step_closed (P : Primitives) (h : s.state = .closed) (op : Op) :
    (s.step P op).state = .closed ∧ taken s op ++ (s.step P op).out = s.out := by
  cases op with
  | takeOutput => exact ⟨h, List.append_nil _⟩
  | pollEvent =>
      simp only [step, pollEvent, taken]
      split
      · exact ⟨h, rfl⟩
      · exact ⟨h, rfl⟩
  | onBytes bytes now => simp [step, TcpSession.onBytes, taken, h]
  | onEof => simp [step, TcpSession.onEof, taken, h]
  | onTimeout now => simp [step, TcpSession.onTimeout, taken, h]
  | send kind body now => simp [step, TcpSession.send, taken, h]
  | close reason => simp [step, TcpSession.close, taken, h]
  | keepalive now => simp [step, TcpSession.keepalive, taken, h]
  | datagramKeys epoch => simp [step, TcpSession.datagramKeys, taken, h]

/-- A closed session writes nothing more. -/
theorem written_closed (h : s.state = .closed) (ops : List Op) : written P s ops = s.out := by
  induction ops generalizing s with
  | nil => rfl
  | cons op ops ih =>
      obtain ⟨hclosed, hout⟩ := step_closed P h op
      have hrest := ih hclosed
      rw [written] at hrest ⊢
      rw [ledger_cons, hrest, hout]

theorem written_append (P : Primitives) (s : TcpSession) (xs ys : List Op) :
    written P s (xs ++ ys) = trace taken (step P) s xs ++ written P (run (step P) s xs) ys :=
  ledger_append s xs ys

/-- What a call that hands out no bytes adds to the output. -/
theorem written_snoc {ops : List Op} {op : Op} {bytes : Bytes}
    (htaken : taken (run (step P) s ops) op = [])
    (hout : ((run (step P) s ops).step P op).out = (run (step P) s ops).out ++ bytes) :
    written P s (ops ++ [op]) = written P s ops ++ bytes := by
  rw [written_append, written, ledger, written, ledger, trace, htaken]
  simp [trace, hout]

theorem written_after_closed {ops : List Op} (h : (run (step P) s ops).state = .closed)
    (more : List Op) : written P s (ops ++ more) = written P s ops := by
  rw [written_append, written_closed h]
  rfl

theorem close_established (h : s.state = .established) (reason : UInt16) :
    (s.close P reason).state = .closed ∧
      (s.close P reason).out = s.out ++ sealed P s kClose (beBytes 2 reason.toNat) := by
  have hlive : s.state ≠ .closed := by
    rw [h]
    exact TcpState.noConfusion
  simp only [close, if_neg hlive, if_pos h]
  exact ⟨trivial, out_sealRecord P s kClose _⟩

theorem out_send (P : Primitives) (s : TcpSession) (kind : UInt8) (body : Bytes) (now : Instant) :
    (s.send P kind body now).2.out =
      s.out ++ if (s.send P kind body now).1 then sealed P s kind body else [] := by
  unfold send
  split
  · exact (List.append_nil _).symm
  · exact out_sealRecord P s kind body

/-! ## A whole life

All of it together, from either factory. -/

/-- A session as either factory returns it. -/
inductive Created (P : Primitives) : TcpSession → Prop where
  | initiate (cfg : TcpSessionConfig) (topic : TopicId) (keyEpoch : UInt8) (psk : Option SymKey)
      (self peer : DevId) (attempt : AttemptNonce) (now : Instant) (random : SecretKey)
      (padding : Vector UInt8 16) :
      Created P (TcpSession.initiate P cfg topic keyEpoch psk self peer attempt now random padding)
  | respond (cfg : TcpSessionConfig) (topic : TopicId) (keyEpoch : UInt8) (psk : Option SymKey)
      (self peer : DevId) (attempt : AttemptNonce) (now : Instant) (random : SecretKey) :
      Created P (TcpSession.respond P cfg topic keyEpoch psk self peer attempt now random)

theorem Created.emits (h : Created P s) : Emits .handshaking s.events s.state := by
  cases h with
  | initiate =>
      unfold TcpSession.initiate
      dsimp only
      split
      · exact .closed TcpState.noConfusion _ _
      · exact .nil _
  | respond => exact .nil _

theorem Created.tidy (h : Created P s) : Tidy s := by
  cases h with
  | initiate =>
      unfold TcpSession.initiate
      dsimp only
      split
      · exact Tidy.fail (.of_handshaking rfl) .local
      · exact .of_handshaking rfl
  | respond => exact .of_handshaking rfl

theorem tidy_run (h : Created P s) (ops : List Op) : Tidy (run (step P) s ops) :=
  run_invariant (fun _ op hs => hs.step op) h.tidy ops

theorem Created.life (h : Created P s) (ops : List Op) :
    ∃ l : Life, emitted P s ops = l.events ∧ (run (step P) s ops).state = l.state := by
  obtain ⟨es, hes, hemits⟩ := emitted_emits P s ops
  rw [hes]
  exact (h.emits.append hemits).life

/-- A closed session gives no keys, whatever epoch is asked for. -/
theorem datagramKeys_closed (h : s.state = .closed) (epoch : Nat) :
    s.datagramKeys P epoch = (none, s) := by
  simp [datagramKeys, h]

/-- The life of a session.  Its events are those of a `Life`, and its state is
the one they lead to; once closed it writes nothing, holds no secret and gives
no keys; closing an established session writes the close record, and that is the
end of the output; and `send` returns true exactly when it wrote a record. -/
theorem life_cycle (hs : Created P s) (ops : List Op) :
    (∃ l : Life, emitted P s ops = l.events ∧ (run (step P) s ops).state = l.state) ∧
    ((run (step P) s ops).state = .closed →
      (∀ more, written P s (ops ++ more) = written P s ops) ∧
        Cleared (run (step P) s ops) ∧
        ∀ epoch, ((run (step P) s ops).datagramKeys P epoch).1 = none) ∧
    ((run (step P) s ops).state = .established → ∀ reason more,
      written P s (ops ++ .close reason :: more) =
        written P s ops ++
          sealed P (run (step P) s ops) kClose (beBytes 2 reason.toNat)) ∧
    (∀ kind body now,
      let record := sealed P (run (step P) s ops) kind body
      let after := written P s (ops ++ [.send kind body now])
      let sent := ((run (step P) s ops).send P kind body now).1
      record ≠ [] ∧ (sent = true ↔ after = written P s ops ++ record) ∧
        (sent = false ↔ after = written P s ops)) := by
  refine ⟨hs.life ops, ?_, ?_, ?_⟩
  · intro hclosed
    refine ⟨written_after_closed hclosed, (tidy_run hs ops).closed hclosed, ?_⟩
    intro epoch
    rw [datagramKeys_closed hclosed]
  · intro hest reason more
    obtain ⟨hclosed, hout⟩ := close_established (P := P) hest reason
    have hsplit : ops ++ .close reason :: more = (ops ++ [.close reason]) ++ more := by
      rw [List.append_assoc]
      rfl
    rw [hsplit, written_after_closed]
    · exact written_snoc rfl hout
    · rw [run_append]
      exact hclosed
  · intro kind body now record after sent
    have hne : record ≠ [] := sealed_ne_nil P _ kind body
    have hafter : after = written P s ops ++ if sent then record else [] :=
      written_snoc rfl (out_send P _ kind body now)
    refine ⟨hne, ?_, ?_⟩
    · rw [hafter]
      cases sent with
      | true => simp
      | false => simpa using hne
    · rw [hafter]
      cases sent with
      | true => simpa using hne
      | false => simp

/-- A responder that is established, sends a record and is closed. -/
theorem life_cycle_responder :
    let ops : List Op :=
      [.onBytes sampleChunks.flatten 0, .send kFirstUserKind [1, 2] 1, .takeOutput, .pollEvent]
    let s := run (step Primitives.checksum) sampleResponder ops
    s.state = .established ∧
      (s.send Primitives.checksum kFirstUserKind [3] 2).1 = true ∧
      ∀ more, written Primitives.checksum sampleResponder (ops ++ .close 7 :: more) =
        written Primitives.checksum sampleResponder ops ++
          sealed Primitives.checksum s kClose [0, 7] := by
  intro ops s
  have hest : s.state = .established := by decide +kernel
  have hcycle := life_cycle (P := Primitives.checksum) (s := sampleResponder) (.respond ..) ops
  refine ⟨hest, by decide +kernel, fun more => ?_⟩
  exact hcycle.2.2.1 hest 7 more

end TcpSession

end UConnect
