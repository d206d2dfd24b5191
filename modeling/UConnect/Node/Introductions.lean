/-
  Node/Introductions.lean --- when two nodes end on one introduction.

  Source: src/api/node.cpp, `begin_connect`, `on_relayed` and the ways an
  attempt ends.

  Two nodes of one topic, without a session between them, introduce themselves
  to each other over the server, which passes introductions on in order.  Either
  may connect, and either attempt may end, at any time.  When introductions
  cross, `on_relayed` keeps the attempt of the smaller dev id; but it keeps
  whatever attempt that side holds, also one the other side has long given up,
  and then the two sides stay on different nonces.  `introductions_agree` says
  when they do not.
-/
import UConnect.Foundation.Run
import UConnect.Foundation.TieBreak
import UConnect.Node.DrivePeer

set_option autoImplicit false

namespace UConnect.Node

open UConnect.Foundation UConnect.Foundation.TieBreak UConnect.Crypto UConnect.Wire

/-! ## One node

An entry and the payloads it has sent, with the operations that concern an
attempt. -/

/-- A node, with its entry for the other one. -/
structure Introducer where
  cfg : NodeConfig
  self : DevId
  entry : Entry

/-- What happens at a node. -/
inductive IntroOp where
  /-- `peers` or `resolve` learned where the peer is. -/
  | learn (cands : List Candidate)
  /-- `connect`, with the candidates the introduction names. -/
  | connect (ctlUp room : Bool) (now : Instant) (nonce : AttemptNonce) (mine : List Candidate)
  /-- The next introduction arrives. -/
  | deliver (room : Bool) (now : Instant)
  /-- `drive_peer`. -/
  | drive (ctlUp room : Bool) (now : Instant) (nonce : AttemptNonce) (mine : List Candidate)
  /-- The server refuses a relay. -/
  | relayRefused
  /-- `disconnect`. -/
  | disconnect

/-- The introductions an entry sent. -/
def Entry.intros (e : Entry) : List AttemptNonce :=
  e.effects.filterMap fun
    | .connect n => some n
    | _ => none

/-- `relay_for` of an error reply: a refused relay is a definitive answer. -/
def Entry.relayRefused (e : Entry) : Entry :=
  if e.peer.sess.isNone then e.endAttempt.setPeerState .failed else e

namespace Introducer

variable (P : Primitives) (topic : TopicId)

/-- What `drive_peer` and its kin read of the node. -/
def env (x : Introducer) (ctlUp room : Bool) (now : Instant) (nonce : AttemptNonce) : Env where
  cfg := x.cfg
  self := some x.self
  ctlUp := ctlUp
  room := room
  now := now
  nonce := nonce

/-- The entry with an empty log. -/
def start (x : Introducer) : Entry := { x.entry with effects := [] }

/-- What is on its way once the entry has acted. -/
def send (e : Entry) (mine : List Candidate) : List Bytes :=
  e.intros.map fun n => encodeIntro topic n mine

/-- `on_relayed` of a payload; the nonce that would be drawn is not used. -/
def onPayload (x : Introducer) (room : Bool) (now : Instant) (payload : Bytes) : Entry :=
  match decodeIntro payload with
  | none => x.start
  | some (t, n, cands) =>
      if t ≠ topic then x.start
      else x.start.onRelayed P (x.env true room now n) n cands {}

/-- The node after an operation with `inbox` waiting, what is still waiting, and
what it sent.  `disconnect` erases the entry: the next one is made afresh. -/
def act (x : Introducer) (inbox : List Bytes) : IntroOp → Introducer × List Bytes × List Bytes
  | .learn cands =>
      ({ x with entry := { x.start with peer := { x.entry.peer with cands := cands } } }, inbox, [])
  | .connect ctlUp room now nonce mine =>
      let e := x.start.beginConnect (x.env ctlUp room now nonce)
      ({ x with entry := e }, inbox, send topic e mine)
  | .deliver room now =>
      match inbox with
      | [] => (x, [], [])
      | payload :: rest => ({ x with entry := x.onPayload P topic room now payload }, rest, [])
  | .drive ctlUp room now nonce mine =>
      let e := x.start.drivePeer P (x.env ctlUp room now nonce) {}
      ({ x with entry := e }, inbox, send topic e mine)
  | .relayRefused => ({ x with entry := x.start.relayRefused }, inbox, [])
  | .disconnect =>
      let e := x.start.disconnectPeer P kGoingAway []
      ({ x with entry := { e with peer := { devId := e.peer.devId } } }, inbox, [])

end Introducer

/-! ## Two nodes

Both entries and the payloads on their way, and when the two agree. -/

/-- Two nodes, named by how their dev ids compare, and the introductions between
them. -/
structure IntroLink where
  topic : TopicId
  small : Introducer
  large : Introducer
  toLarge : List Bytes := []
  toSmall : List Bytes := []

/-- Which node acts. -/
inductive Rank where
  | small
  | large
  deriving DecidableEq

namespace IntroLink

variable (P : Primitives)

/-- One step. -/
def step (l : IntroLink) : Rank × IntroOp → IntroLink
  | (.small, op) =>
      let (x, inbox, sent) := l.small.act P l.topic l.toSmall op
      { l with small := x, toSmall := inbox, toLarge := l.toLarge ++ sent }
  | (.large, op) =>
      let (x, inbox, sent) := l.large.act P l.topic l.toLarge op
      { l with large := x, toLarge := inbox, toSmall := l.toSmall ++ sent }

/-- The nonces of introductions in flight. -/
def nonces (q : List Bytes) : List AttemptNonce :=
  q.filterMap fun p => (decodeIntro p).map fun i => i.2.1

/-- The two attempts and what is in flight. -/
def pair (l : IntroLink) : Pair AttemptNonce where
  senior := l.small.entry.peer.attempt
  junior := l.large.entry.peer.attempt
  toJunior := nonces l.toLarge
  toSenior := nonces l.toSmall

/-- Two nodes that know nothing of each other but their dev ids. -/
structure Started (l : IntroLink) : Prop where
  order : smaller l.small.self l.large.self = true
  toLarge : l.toLarge = []
  toSmall : l.toSmall = []
  small : l.small.entry.peer = { devId := l.large.self }
  large : l.large.entry.peer = { devId := l.small.self }

/-- Does the operation end the node's attempt? -/
def ends (x : Introducer) : IntroOp → Bool
  | .drive _ _ now _ _ =>
      x.entry.peer.attempt.isSome && decide (now ≥ x.entry.peer.punchDeadline + kRelayWindow)
  | .relayRefused => x.entry.peer.attempt.isSome
  | .disconnect => x.entry.peer.attempt.isSome
  | _ => false

/-- Does the operation make an introduction of the node's own? -/
def connects (x : Introducer) : IntroOp → Bool
  | .connect ctlUp room _ _ _ =>
      ctlUp && !x.entry.peer.cands.isEmpty && x.entry.peer.attempt.isNone && room
  | _ => false

/-- The larger dev id connects only while an introduction of the attempt the
smaller one holds is on its way, or with nothing in flight and no attempt at the
smaller one; the smaller one's attempt ends only when the introductions on their
way to it name the nonce the larger one will hold. -/
def Orderly (l : IntroLink) : Rank × IntroOp → Prop
  | (.small, op) => ends l.small op = true → l.pair.MayGiveUp
  | (.large, op) => connects l.large op = true → l.pair.MayPropose

instance Orderly.decidable (l : IntroLink) : ∀ op, Decidable (Orderly l op)
  | (.small, op) =>
      inferInstanceAs (Decidable (ends l.small op = true → ∀ x ∈ l.pair.toSenior,
        ∀ y, l.pair.juniorEnd = some y → x = y))
  | (.large, op) =>
      inferInstanceAs (Decidable (connects l.large op = true →
        (l.pair.toJunior ≠ [] ∧ l.pair.senior.isSome = true) ∨
          (l.pair.toJunior = [] ∧ l.pair.senior = none ∧ l.pair.toSenior = [])))

/-- With no introduction in flight, two attempts are one. -/
def Agree (l : IntroLink) : Prop :=
  l.toLarge = [] → l.toSmall = [] → ∀ a ∈ l.small.entry.peer.attempt,
    ∀ b ∈ l.large.entry.peer.attempt, a = b

end IntroLink

/-! ## What an operation does to the attempt

Which operations make an attempt, take one and end one. -/

/-- An entry without a session, and with none to retry. -/
structure Idle (e : Entry) (dev : DevId) : Prop where
  sess : e.peer.sess = none
  retryAt : e.peer.retryAt = 0
  devId : e.peer.devId = dev

section Turns

variable {e : Entry} {dev : DevId} (env : Env)

theorem Idle.endAttempt (h : Idle e dev) : Idle e.endAttempt dev := by
  refine ⟨?_, ?_, ?_⟩ <;> rw [Entry.endAttempt_peer]
  · exact h.sess
  · exact h.retryAt
  · exact h.devId

theorem Idle.setPeerState (h : Idle e dev) (s : PeerState) : Idle (e.setPeerState s) dev := by
  refine ⟨?_, ?_, ?_⟩ <;> rw [Entry.setPeerState_peer]
  · exact h.sess
  · exact h.retryAt
  · exact h.devId

theorem Idle.adoptAttempt (h : Idle e dev) (n : AttemptNonce) :
    Idle (e.adoptAttempt env n) dev := by
  refine ⟨?_, ?_, ?_⟩ <;> rw [Entry.adoptAttempt_peer]
  · exact h.sess
  · exact h.retryAt
  · exact h.devId

theorem Entry.attempt_adoptAttempt (n : AttemptNonce) :
    (e.adoptAttempt env n).peer.attempt = some n := by
  rw [Entry.adoptAttempt_peer]

/-- Taking an attempt up introduces nobody. -/
theorem Entry.intros_adoptAttempt (n : AttemptNonce) :
    (e.adoptAttempt env n).intros = e.intros := by
  rcases Entry.adoptAttempt_effects env e n with h | h
  · simp [Entry.intros, h]
  · simp [Entry.intros, h]

/-- `begin_connect` of an idle peer. -/
theorem Idle.beginConnect (h : Idle e dev) (heffects : e.effects = []) :
    Idle (e.beginConnect env) dev ∧
      (((e.beginConnect env).peer.attempt = e.peer.attempt ∧ (e.beginConnect env).intros = []) ∨
        (e.peer.attempt = none ∧ (e.beginConnect env).peer.attempt = some env.nonce ∧
          (e.beginConnect env).intros = [env.nonce])) := by
  rcases Entry.beginConnect_cases env e with hstay | ⟨-, hnone, hconn⟩
  · rw [hstay]
    exact ⟨h, Or.inl ⟨rfl, by simp [Entry.intros, heffects]⟩⟩
  · rw [hconn]
    have hidle : Idle (e.log (.connect env.nonce)) dev := ⟨h.sess, h.retryAt, h.devId⟩
    refine ⟨hidle.adoptAttempt env _, Or.inr ⟨hnone, Entry.attempt_adoptAttempt env _, ?_⟩⟩
    rw [Entry.intros_adoptAttempt]
    simp [Entry.intros, heffects]

/-- `begin_connect` introduces us only where it has a server, an address and
room. -/
theorem Idle.beginConnect_guard (h : Idle e dev) (heffects : e.effects = [])
    (hintros : (e.beginConnect env).intros ≠ []) :
    (env.ctlUp && !e.peer.cands.isEmpty && e.peer.attempt.isNone && env.room) = true := by
  have hnone : e.intros = [] := by simp [Entry.intros, heffects]
  revert hintros
  unfold Entry.beginConnect
  split
  · exact fun hne => absurd hnone hne
  · rename_i hup
    split
    · exact fun hne => absurd hnone hne
    · rename_i hcands
      split
      · exact fun hne => absurd hnone hne
      · rename_i hfree
        split
        · exact fun hne => absurd hnone hne
        · rename_i hroom
          intro _
          simp only [h.sess, canAdmit] at hfree hroom
          simp_all

/-- `drive_peer` of an idle peer dials, or ends the attempt at its deadline. -/
theorem Idle.drivePeer (P : Primitives) (h : Idle e dev) (heffects : e.effects = []) (io : Io) :
    Idle (e.drivePeer P env io) dev ∧ (e.drivePeer P env io).intros = [] ∧
      ((e.drivePeer P env io).peer.attempt = e.peer.attempt ∨
        (e.peer.attempt.isSome = true ∧ env.now ≥ e.peer.punchDeadline + kRelayWindow ∧
          (e.drivePeer P env io).peer.attempt = none)) := by
  have hretry : e.driveRetry env = e := by
    unfold Entry.driveRetry
    rw [if_neg (by simp [h.retryAt])]
  have hintros : e.intros = [] := by simp [Entry.intros, heffects]
  unfold Entry.drivePeer
  simp only [hretry, h.sess, Option.isNone_none, Bool.and_true]
  cases hatt : e.peer.attempt with
  | none =>
      simp only [Option.isSome_none, Bool.false_eq_true, if_false]
      exact ⟨h, hintros, Or.inl hatt⟩
  | some n =>
      simp only [Option.isSome_some, if_true]
      -- whatever is dialed or asked for, the attempt stays and nobody is introduced
      obtain ⟨redial, asked, backup, hpeer⟩ := Entry.driveReach_peer env e
      have hidle : Idle (e.driveReach env) dev := by
        refine ⟨?_, ?_, ?_⟩ <;> rw [hpeer]
        · exact h.sess
        · exact h.retryAt
        · exact h.devId
      have hnone : (e.driveReach env).intros = [] := by
        rcases Entry.driveReach_effects env e with he | ⟨m, -, he⟩ | he
        all_goals simp [Entry.intros, he, heffects]
      unfold Entry.driveDial
      simp only
      rcases Decidable.em (env.now ≥ (e.driveReach env).peer.punchDeadline + kRelayWindow) with
        hlate | hlate
      · rw [if_pos hlate]
        refine ⟨hidle.endAttempt.setPeerState _, ?_, Or.inr ⟨trivial, ?_, ?_⟩⟩
        · unfold Entry.intros at hnone ⊢
          rw [Entry.setPeerState_effects, Entry.endAttempt_effects, List.filterMap_append, hnone]
          cases (e.driveReach env).peer.attempt <;> rfl
        · rw [hpeer] at hlate
          exact hlate
        · rw [Entry.setPeerState_peer, Entry.endAttempt_peer]
      · rw [if_neg hlate]
        refine ⟨hidle, hnone, Or.inl ?_⟩
        rw [hpeer]
        exact hatt

/-- The tie-break at an idle peer. -/
theorem Idle.meetIntro (self : DevId) (h : Idle e dev) (n : AttemptNonce) :
    Idle (e.meetIntro env self n) dev ∧
      (((e.meetIntro env self n).peer.attempt = some n ∧
          (e.peer.attempt = none ∨ smaller self dev = false)) ∨
        ((e.meetIntro env self n).peer.attempt = e.peer.attempt ∧ smaller self dev = true)) := by
  unfold Entry.meetIntro
  rw [h.devId]
  rcases Decidable.em ((e.peer.attempt.isSome && smaller self dev) = true) with hkeep | hkeep
  · rw [if_pos hkeep]
    exact ⟨h, Or.inr ⟨rfl, (Bool.and_eq_true_iff.mp hkeep).2⟩⟩
  · rw [if_neg hkeep]
    refine ⟨h.adoptAttempt env n, Or.inl ⟨Entry.attempt_adoptAttempt env n, ?_⟩⟩
    cases hatt : e.peer.attempt with
    | none => exact Or.inl rfl
    | some m =>
        rw [hatt] at hkeep
        exact Or.inr (by simpa using hkeep)

/-- `on_relayed` of an idle peer: the introduction is taken up, or the peer
keeps what it has. -/
theorem Idle.onRelayed (P : Primitives) {self : DevId} (h : Idle e dev)
    (hself : env.self = some self) (n : AttemptNonce) (cands : List Candidate) (io : Io) :
    Idle (e.onRelayed P env n cands io) dev ∧
      (((e.onRelayed P env n cands io).peer.attempt = some n ∧
          (e.peer.attempt = none ∨ smaller self dev = false)) ∨
        ((e.onRelayed P env n cands io).peer.attempt = e.peer.attempt ∧
          (e.peer.attempt = none ∨ smaller self dev = true))) := by
  have hrelayed : e.onRelayed P env n cands io =
      if !canAdmit env e.peer then e
      else { e with peer := { e.peer with cands := cands } }.meetIntro env self n := by
    unfold Entry.onRelayed
    rw [hself]
    simp only [h.sess]
  rw [hrelayed]
  rcases Decidable.em ((!canAdmit env e.peer) = true) with hfull | hfull
  · rw [if_pos hfull]
    refine ⟨h, Or.inr ⟨rfl, Or.inl ?_⟩⟩
    simp only [canAdmit, h.sess, Bool.not_eq_true', Bool.or_eq_false_iff,
      Option.isSome_eq_false_iff, Option.isNone_iff_eq_none] at hfull
    exact hfull.1.2
  · rw [if_neg hfull]
    have hidle : Idle { e with peer := { e.peer with cands := cands } } dev :=
      ⟨h.sess, h.retryAt, h.devId⟩
    obtain ⟨hmeet, hatt⟩ := hidle.meetIntro env self n
    refine ⟨hmeet, ?_⟩
    rcases hatt with hatt | ⟨hatt, hsm⟩
    · exact Or.inl hatt
    · exact Or.inr ⟨hatt, Or.inr hsm⟩

theorem Idle.disconnectPeer (P : Primitives) (h : Idle e dev) (reason : UInt16)
    (sends : List SendResult) : (e.disconnectPeer P reason sends).peer.devId = dev := by
  unfold Entry.disconnectPeer
  have hbye : e.farewell P reason sends = e := by
    simp only [Entry.farewell, h.sess]
  simp only [hbye]
  split <;> split <;>
    simp only [Entry.setPeerState_peer, Entry.defer_peer, Entry.dgramDrop_peer,
      Entry.endAttempt_peer] <;> exact h.devId

end Turns

/-- What an operation other than a delivery can do to a node's attempt. -/
inductive Turn (x x' : Introducer) (op : IntroOp) (sent : List Bytes) (topic : TopicId) : Prop where
  | stay (hattempt : x'.entry.peer.attempt = x.entry.peer.attempt) (hsent : sent = [])
  | propose (n : AttemptNonce) (mine : List Candidate) (hop : IntroLink.connects x op = true)
      (hattempt : x'.entry.peer.attempt = some n) (hsent : sent = [encodeIntro topic n mine])
  | giveUp (hop : IntroLink.ends x op = true) (hattempt : x'.entry.peer.attempt = none)
      (hsent : sent = [])

/-- The operation is not a delivery. -/
def IntroOp.own : IntroOp → Prop
  | .deliver _ _ => False
  | _ => True

section Acts

variable (P : Primitives) (topic : TopicId) {x : Introducer} {dev : DevId}

theorem idle_start (h : Idle x.entry dev) : Idle x.start dev := ⟨h.sess, h.retryAt, h.devId⟩

theorem Idle.act (h : Idle x.entry dev) (inbox : List Bytes) {op : IntroOp} (hop : op.own) :
    Idle (x.act P topic inbox op).1.entry dev ∧ (x.act P topic inbox op).1.self = x.self ∧
      (x.act P topic inbox op).2.1 = inbox ∧
      Turn x (x.act P topic inbox op).1 op (x.act P topic inbox op).2.2 topic := by
  have hstart := idle_start h
  cases op with
  | deliver room now => cases hop
  | learn cands => exact ⟨⟨h.sess, h.retryAt, h.devId⟩, rfl, rfl, .stay rfl rfl⟩
  | connect ctlUp room now nonce mine =>
      obtain ⟨hidle, hturn⟩ := hstart.beginConnect (x.env ctlUp room now nonce) rfl
      refine ⟨hidle, rfl, rfl, ?_⟩
      rcases hturn with ⟨hatt, hintros⟩ | ⟨hnone, hatt, hintros⟩
      · apply Turn.stay hatt
        simp [Introducer.act, Introducer.send, hintros]
      · apply Turn.propose nonce mine _ hatt
        · simp only [Introducer.act, Introducer.send, hintros, List.map_cons, List.map_nil]
          rfl
        · exact hstart.beginConnect_guard (x.env ctlUp room now nonce) rfl (by simp [hintros])
  | drive ctlUp room now nonce mine =>
      obtain ⟨hidle, hintros, hturn⟩ :=
        hstart.drivePeer (x.env ctlUp room now nonce) P rfl {}
      have hsent : (x.act P topic inbox (.drive ctlUp room now nonce mine)).2.2 = [] := by
        simp [Introducer.act, Introducer.send, hintros]
      refine ⟨hidle, rfl, rfl, ?_⟩
      rcases hturn with hatt | ⟨hsome, hlate, hatt⟩
      · exact .stay hatt hsent
      · refine .giveUp ?_ hatt hsent
        simp only [IntroLink.ends, Bool.and_eq_true, decide_eq_true_eq]
        exact ⟨hsome, hlate⟩
  | relayRefused =>
      have hact : (x.act P topic inbox .relayRefused).1.entry =
          x.start.endAttempt.setPeerState .failed := by
        simp [Introducer.act, Entry.relayRefused, hstart.sess]
      rw [hact]
      refine ⟨hstart.endAttempt.setPeerState _, rfl, rfl, ?_⟩
      have hnone : (x.act P topic inbox .relayRefused).1.entry.peer.attempt = none := by
        rw [hact, Entry.setPeerState_peer, Entry.endAttempt_peer]
      cases hatt : x.entry.peer.attempt with
      | none => exact .stay (hnone.trans hatt.symm) rfl
      | some n => exact .giveUp (by simp [IntroLink.ends, hatt]) hnone rfl
  | disconnect =>
      refine ⟨⟨rfl, rfl, hstart.disconnectPeer P kGoingAway []⟩, rfl, rfl, ?_⟩
      cases hatt : x.entry.peer.attempt with
      | none => exact .stay hatt.symm rfl
      | some n => exact .giveUp (by simp [IntroLink.ends, hatt]) rfl rfl

/-- A delivery takes the introduction up, or leaves things as they are. -/
theorem Idle.deliver (h : Idle x.entry dev) (n : AttemptNonce) (mine : List Candidate)
    (rest : List Bytes) (room : Bool) (now : Instant) :
    let y := x.act P topic (encodeIntro topic n mine :: rest) (.deliver room now)
    Idle y.1.entry dev ∧ y.1.self = x.self ∧ y.2.1 = rest ∧ y.2.2 = [] ∧
      ((y.1.entry.peer.attempt = some n ∧
          (x.entry.peer.attempt = none ∨ smaller x.self dev = false)) ∨
        (y.1.entry.peer.attempt = x.entry.peer.attempt ∧
          (x.entry.peer.attempt = none ∨ smaller x.self dev = true))) := by
  have hpayload : x.onPayload P topic room now (encodeIntro topic n mine) =
      x.start.onRelayed P (x.env true room now n) n
        ((mine.take kMaxCandidates).map Candidate.normal) {} := by
    unfold Introducer.onPayload
    rw [decodeIntro_encodeIntro]
    simp
  intro y
  have hy : y.1.entry = x.onPayload P topic room now (encodeIntro topic n mine) := rfl
  rw [hy, hpayload]
  obtain ⟨hidle, hatt⟩ := (idle_start h).onRelayed (x.env true room now n) P rfl n
    ((mine.take kMaxCandidates).map Candidate.normal) {}
  exact ⟨hidle, rfl, rfl, rfl, hatt⟩

end Acts

/-! ## Runs

The library's crossing proposals, with nonces for tokens and the smaller dev id
for the senior. -/

namespace IntroLink

variable (P : Primitives) {l : IntroLink}

/-- The queue holds introductions to the topic. -/
def Genuine (topic : TopicId) (q : List Bytes) : Prop :=
  ∀ p ∈ q, ∃ n mine, p = encodeIntro topic n mine

theorem nonces_cons (topic : TopicId) (n : AttemptNonce) (mine : List Candidate)
    (q : List Bytes) : nonces (encodeIntro topic n mine :: q) = n :: nonces q := by
  simp [nonces, decodeIntro_encodeIntro]

theorem nonces_singleton (topic : TopicId) (n : AttemptNonce) (mine : List Candidate) :
    nonces [encodeIntro topic n mine] = [n] :=
  nonces_cons topic n mine []

theorem nonces_append (q q' : List Bytes) : nonces (q ++ q') = nonces q ++ nonces q' :=
  List.filterMap_append

theorem Genuine.concat {topic : TopicId} {q : List Bytes} (h : Genuine topic q)
    (n : AttemptNonce) (mine : List Candidate) :
    Genuine topic (q ++ [encodeIntro topic n mine]) := by
  intro p hp
  rcases List.mem_append.mp hp with hp | hp
  · exact h p hp
  · exact ⟨n, mine, List.mem_singleton.mp hp⟩

/-- The invariant of the two nodes. -/
structure Inv (l : IntroLink) : Prop where
  small : Idle l.small.entry l.large.self
  large : Idle l.large.entry l.small.self
  order : smaller l.small.self l.large.self = true
  toLarge : Genuine l.topic l.toLarge
  toSmall : Genuine l.topic l.toSmall
  settled : l.pair.Settled

theorem Started.inv (h : Started l) : Inv l where
  small := by constructor <;> rw [h.small]
  large := by constructor <;> rw [h.large]
  order := h.order
  toLarge := by
    rw [h.toLarge]
    intro p hp
    cases hp
  toSmall := by
    rw [h.toSmall]
    intro p hp
    cases hp
  settled := by
    have hpair : l.pair = {} := by
      rw [pair, h.small, h.large, h.toLarge, h.toSmall]
      rfl
    rw [hpair]
    exact Pair.settled_init

/-- The smaller of two dev ids is not the larger. -/
theorem not_smaller {a b : DevId} (h : smaller a b = true) : smaller b a = false := by
  simp only [smaller, decide_eq_true_eq, decide_eq_false_iff_not] at h ⊢
  exact List.lt_asymm h

/-- What is left of a queue of introductions. -/
theorem Genuine.tail {topic : TopicId} {p : Bytes} {q : List Bytes}
    (h : Genuine topic (p :: q)) : Genuine topic q := by
  intro p' hp'
  exact h p' (List.mem_cons_of_mem _ hp')

/-- An introduction reaches the smaller dev id. -/
theorem Inv.deliver_small (h : Inv l) (room : Bool) (now : Instant) :
    Inv (l.step P (.small, .deliver room now)) := by
  cases hq : l.toSmall with
  | nil =>
      have hstep : l.step P (.small, .deliver room now) = l := by
        simp only [step, Introducer.act, hq, List.append_nil]
        rw [← hq]
      rw [hstep]
      exact h
  | cons p rest =>
      obtain ⟨n, mine, rfl⟩ := h.toSmall p (hq ▸ List.mem_cons_self)
      obtain ⟨hidle, hself, hinbox, hsent, hatt⟩ :=
        h.small.deliver P l.topic n mine rest room now
      have hpair : l.pair.toSenior = n :: nonces rest := by
        rw [← nonces_cons l.topic n mine, ← hq]
        rfl
      unfold step
      simp only [hq, hinbox, hsent, List.append_nil]
      refine ⟨hidle, ?_, ?_, h.toLarge, (hq ▸ h.toSmall : Genuine _ _).tail, ?_⟩
      · simp only [hself]
        exact h.large
      · simp only [hself]
        exact h.order
      · rcases hatt with ⟨hatt, hnone | hsm⟩ | ⟨hatt, -⟩
        · have hset := h.settled.senior_takes hpair hnone
          unfold pair at hset ⊢
          simpa only [hatt] using hset
        · rw [h.order] at hsm
          cases hsm
        · have hset := h.settled.senior_drops hpair
          unfold pair at hset ⊢
          simpa only [hatt] using hset

/-- An introduction reaches the larger dev id. -/
theorem Inv.deliver_large (h : Inv l) (room : Bool) (now : Instant) :
    Inv (l.step P (.large, .deliver room now)) := by
  cases hq : l.toLarge with
  | nil =>
      have hstep : l.step P (.large, .deliver room now) = l := by
        simp only [step, Introducer.act, hq, List.append_nil]
        rw [← hq]
      rw [hstep]
      exact h
  | cons p rest =>
      obtain ⟨n, mine, rfl⟩ := h.toLarge p (hq ▸ List.mem_cons_self)
      obtain ⟨hidle, hself, hinbox, hsent, hatt⟩ :=
        h.large.deliver P l.topic n mine rest room now
      have hpair : l.pair.toJunior = n :: nonces rest := by
        rw [← nonces_cons l.topic n mine, ← hq]
        rfl
      unfold step
      simp only [hq, hinbox, hsent, List.append_nil]
      refine ⟨?_, hidle, ?_, (hq ▸ h.toLarge : Genuine _ _).tail, h.toSmall, ?_⟩
      · simp only [hself]
        exact h.small
      · simp only [hself]
        exact h.order
      · rcases hatt with ⟨hatt, -⟩ | ⟨hatt, hnone | hsm⟩
        · have hset := h.settled.junior_takes hpair
          unfold pair at hset ⊢
          simpa only [hatt] using hset
        · have hset := h.settled.junior_refuses hpair hnone
          unfold pair at hset ⊢
          simpa only [hatt] using hset
        · rw [not_smaller h.order] at hsm
          cases hsm

theorem Inv.own_small (h : Inv l) {op : IntroOp} (hown : op.own)
    (hok : Orderly l (.small, op)) : Inv (l.step P (.small, op)) := by
  obtain ⟨hidle, hself, hinbox, hturn⟩ := h.small.act P l.topic l.toSmall hown
  have hlarge : Idle l.large.entry (l.small.act P l.topic l.toSmall op).1.self := by
    rw [hself]
    exact h.large
  have horder : smaller (l.small.act P l.topic l.toSmall op).1.self l.large.self = true := by
    rw [hself]
    exact h.order
  have hsmall : Genuine l.topic (l.small.act P l.topic l.toSmall op).2.1 := by
    rw [hinbox]
    exact h.toSmall
  cases hturn with
  | stay hatt hsent =>
      refine ⟨hidle, hlarge, horder, ?_, hsmall, ?_⟩
      · simp only [step, hsent, List.append_nil]
        exact h.toLarge
      · have hset := h.settled
        unfold pair at hset ⊢
        simpa only [step, hatt, hinbox, hsent, List.append_nil] using hset
  | propose n mine hop hatt hsent =>
      refine ⟨hidle, hlarge, horder, ?_, hsmall, ?_⟩
      · simp only [step, hsent]
        exact h.toLarge.concat n mine
      · have hset := Pair.settled_senior_proposes n l.pair
        unfold pair at hset ⊢
        simpa only [step, hatt, hinbox, hsent, nonces_append, nonces_singleton] using hset
  | giveUp hop hatt hsent =>
      refine ⟨hidle, hlarge, horder, ?_, hsmall, ?_⟩
      · simp only [step, hsent, List.append_nil]
        exact h.toLarge
      · have hset := Pair.settled_senior_gives_up (hok hop)
        unfold pair at hset ⊢
        simpa only [step, hatt, hinbox, hsent, List.append_nil] using hset

theorem Inv.own_large (h : Inv l) {op : IntroOp} (hown : op.own)
    (hok : Orderly l (.large, op)) : Inv (l.step P (.large, op)) := by
  obtain ⟨hidle, hself, hinbox, hturn⟩ := h.large.act P l.topic l.toLarge hown
  have hsmall : Idle l.small.entry (l.large.act P l.topic l.toLarge op).1.self := by
    rw [hself]
    exact h.small
  have horder : smaller l.small.self (l.large.act P l.topic l.toLarge op).1.self = true := by
    rw [hself]
    exact h.order
  have hlarge : Genuine l.topic (l.large.act P l.topic l.toLarge op).2.1 := by
    rw [hinbox]
    exact h.toLarge
  cases hturn with
  | stay hatt hsent =>
      refine ⟨hsmall, hidle, horder, hlarge, ?_, ?_⟩
      · simp only [step, hsent, List.append_nil]
        exact h.toSmall
      · have hset := h.settled
        unfold pair at hset ⊢
        simpa only [step, hatt, hinbox, hsent, List.append_nil] using hset
  | propose n mine hop hatt hsent =>
      refine ⟨hsmall, hidle, horder, hlarge, ?_, ?_⟩
      · simp only [step, hsent]
        exact h.toSmall.concat n mine
      · have hset := h.settled.junior_proposes (hok hop) n
        unfold pair at hset ⊢
        simpa only [step, hatt, hinbox, hsent, nonces_append, nonces_singleton] using hset
  | giveUp hop hatt hsent =>
      refine ⟨hsmall, hidle, horder, hlarge, ?_, ?_⟩
      · simp only [step, hsent, List.append_nil]
        exact h.toSmall
      · have hset := h.settled.junior_gives_up
        unfold pair at hset ⊢
        simpa only [step, hatt, hinbox, hsent, List.append_nil] using hset

theorem Inv.step {op : Rank × IntroOp} (hok : Orderly l op) (h : Inv l) :
    Inv (l.step P op) := by
  obtain ⟨rank, op⟩ := op
  cases op with
  | deliver room now =>
      cases rank with
      | small => exact h.deliver_small P room now
      | large => exact h.deliver_large P room now
  | _ =>
      cases rank with
      | small => exact h.own_small P trivial hok
      | large => exact h.own_large P trivial hok

/-- In every run whose steps are orderly, two attempts that meet with nothing in
flight are one. -/
theorem introductions_agree (hstart : Started l) (ops : List (Rank × IntroOp))
    (hok : AllSteps Orderly (IntroLink.step P) l ops) : Agree (run (IntroLink.step P) l ops) := by
  have hinv : Inv (run (IntroLink.step P) l ops) :=
    run_invariant_of_allSteps (fun _ _ => Inv.step P) hstart.inv ops hok
  intro hlarge _ a ha b hb
  apply hinv.settled.agree _ ha hb
  rw [pair, hlarge]
  rfl

/-- A node before any introduction. -/
def sampleNode (self peer : DevId) : Introducer where
  cfg := {}
  self := self
  entry := { peer := { devId := peer } }

/-- The two before anything happens. -/
def sample : IntroLink where
  topic := Vector.replicate 16 7
  small := sampleNode (Vector.replicate 16 1) (Vector.replicate 16 2)
  large := sampleNode (Vector.replicate 16 2) (Vector.replicate 16 1)

/-- An address to dial. -/
def sampleCands : List Candidate := [{ kind := .srflx, ep := { port := 4000 } }]

theorem started_sample : Started sample := by
  refine ⟨?_, rfl, rfl, rfl, rfl⟩
  decide

/-- Both learn of the other and connect at once; the introductions cross. -/
def sampleCrossing : List (Rank × IntroOp) :=
  [(.small, .learn sampleCands), (.large, .learn sampleCands),
    (.small, .connect true true 1 (Vector.replicate 16 11) sampleCands),
    (.large, .connect true true 1 (Vector.replicate 16 22) sampleCands),
    (.small, .deliver true 2), (.large, .deliver true 3)]

/-- The two behind them. -/
def sampleCrossed : IntroLink := run (IntroLink.step Primitives.checksum) sample sampleCrossing

theorem introductions_agree_sample :
    sampleCrossed.small.entry.peer.attempt = some (Vector.replicate 16 11) ∧
      Agree sampleCrossed := by
  have hok : AllSteps Orderly (IntroLink.step Primitives.checksum) sample sampleCrossing := by
    decide +kernel
  refine ⟨by decide +kernel, ?_⟩
  exact introductions_agree Primitives.checksum started_sample sampleCrossing hok

/-- Device 2 takes up the introduction of device 1, gives it up, and introduces
itself again: device 1 still holds the old attempt, and keeps it. -/
def sampleParted : IntroLink :=
  run (IntroLink.step Primitives.checksum) sample
    [(.small, .learn sampleCands),
      (.small, .connect true true 1 (Vector.replicate 16 11) sampleCands),
      (.large, .deliver true 2), (.large, .disconnect), (.large, .learn sampleCands),
      (.large, .connect true true 3 (Vector.replicate 16 22) sampleCands),
      (.small, .deliver true 4)]

theorem renewed_introduction_parts_the_two :
    Started sample ∧ ¬ Agree sampleParted := by
  have hrun : sampleParted.toLarge = [] ∧ sampleParted.toSmall = [] ∧
      sampleParted.small.entry.peer.attempt = some (Vector.replicate 16 11) ∧
      sampleParted.large.entry.peer.attempt = some (Vector.replicate 16 22) := by
    decide +kernel
  obtain ⟨hl, hs, ha, hb⟩ := hrun
  refine ⟨started_sample, ?_⟩
  intro hagree
  have heq := hagree hl hs _ ha _ hb
  revert heq
  decide

end IntroLink

end UConnect.Node
