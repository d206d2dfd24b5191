/-
  Session/TcpHandshake.lean --- the handshake of two reliable sessions.

  An initiator and a responder exchange their two messages over a byte stream
  that arrives in any chunks at any times, with hellos in front of message 2.
  What the Noise states do is Crypto/Handshake.lean's; here the frames around
  the messages are taken off (`deliver_invariant` of Session/TcpChunking.lean)
  and the checks of the attempt and of the device ids come in.
-/
import UConnect.Crypto.Handshake
import UConnect.Session.TcpChunking

set_option autoImplicit false

namespace UConnect

open UConnect.Foundation UConnect.Crypto

namespace TcpSession

variable {P : Primitives}

/-! ## Frames that are there

The loop at the front of a buffer that holds a whole hello or a whole handshake
message. -/

/-- A frame whose length is acceptable is found when it is there. -/
theorem prefixed_frame {width : Nat} {bad : Nat → Bool} (frame : Bytes → Frame) {body : Bytes}
    (hlen : body.length < 256 ^ width) (hgood : bad body.length = false) (rest : Bytes) :
    prefixed width bad frame (beBytes width body.length ++ body ++ rest) =
      some (frame body, rest) := by
  have htake : (beBytes width body.length ++ body ++ rest).take width =
      beBytes width body.length := by
    rw [List.append_assoc]
    exact List.take_left' (length_beBytes _ _)
  have hdrop : (beBytes width body.length ++ body ++ rest).drop width = body ++ rest := by
    rw [List.append_assoc]
    exact List.drop_left' (length_beBytes _ _)
  have htotal : (beBytes width body.length ++ body ++ rest).length =
      width + body.length + rest.length := by
    rw [List.length_append, List.length_append, length_beBytes]
  unfold prefixed
  rw [if_neg (by omega), htake, beVal_beBytes_of_lt hlen]
  dsimp only
  rw [hgood, if_neg Bool.false_ne_true, if_neg (by omega), hdrop, List.take_left' rfl,
    ← List.drop_drop, hdrop, List.drop_left' rfl]

theorem nextFrame_nil (s : TcpSession) : s.nextFrame [] = none :=
  parsed_of_in_nil (s := s.withIn []) rfl

theorem length_hello (attempt : AttemptNonce) : (hello attempt).length = kHelloLen := by
  simp [hello, kHelloLen, kAttemptLen]

/-- An initiator skips a hello, whatever attempt it names. -/
theorem nextFrame_hello {s : TcpSession} (hstate : s.state = .handshaking)
    (hinit : s.initiator = true) (attempt : AttemptNonce) (rest : Bytes) :
    s.nextFrame (hello attempt ++ rest) = some (.hello, rest) := by
  have hlen : kHelloLen ≤ (hello attempt ++ rest).length := by
    rw [List.length_append, length_hello]
    omega
  have hpeek : (peekHello (hello attempt ++ rest)).isNone = false := by
    unfold peekHello
    rw [if_neg (Nat.not_lt.mpr hlen), if_neg (by simp [hello])]
    rfl
  unfold nextFrame
  rw [hstate, hinit]
  dsimp only
  rw [if_pos (by simp [hello]), if_neg (Nat.not_lt.mpr hlen), hpeek, if_neg Bool.false_ne_true,
    List.drop_left' (length_hello attempt)]

/-- A handshake message is found when it is there; its length keeps it from
being taken for a hello. -/
theorem nextFrame_message {s : TcpSession} (hstate : s.state = .handshaking) {body : Bytes}
    (hshort : body.length < 256) (hlong : s.initiator = false → kAttemptLen ≤ body.length)
    (rest : Bytes) :
    s.nextFrame (beBytes 2 body.length ++ body ++ rest) = some (.message body, rest) := by
  have hhead : (beBytes 2 body.length ++ body ++ rest).head? = some 0 := by
    simp only [beBytes, List.cons_append, List.head?_cons, Option.some.injEq]
    rw [Nat.pow_one, Nat.div_eq_of_lt hshort]
    rfl
  have hgood : (decide (body.length > kMaxHandshakeFrame) ||
      (!s.initiator && decide (body.length < kAttemptLen))) = false := by
    cases hinit : s.initiator with
    | true => simp [kMaxHandshakeFrame]; omega
    | false =>
        have hle := hlong hinit
        simp [kMaxHandshakeFrame, Nat.not_lt.mpr hle]; omega
  unfold nextFrame
  rw [hstate]
  dsimp only
  rw [hhead, if_neg (by simp [kHello0])]
  exact prefixed_frame .message (Nat.lt_trans hshort (by decide)) hgood rest

/-! ## Reading a handshake message off a stream

Whatever the pieces and the times, what is done is what is done with the whole
message at once. -/

theorem fail_of_open {s : TcpSession} (h : s.state ≠ .closed) (cause : CloseCause) :
    (s.fail cause).out = s.out ∧ (s.fail cause).events = s.events ++ [.closed cause 0] := by
  unfold fail
  rw [if_neg h]
  exact ⟨rfl, rfl⟩

/-- A responder that is sent message 1 still waits for the rest of it, or has
done with it what `on_bytes` does. -/
theorem responder_deliver {b : TcpSession} (hstate : b.state = .handshaking)
    (hrole : b.initiator = false) (hin : b.in_ = []) {body : Bytes} (hshort : body.length < 256)
    (hlong : kAttemptLen ≤ body.length) {chunks : List (Bytes × Instant)} {rest : Bytes}
    (hstream : stream chunks ++ rest = beBytes 2 body.length ++ body) :
    ((b.deliver P chunks).withIn [] = b ∧ rest ≠ []) ∨
      (∃ now, (b.deliver P chunks).withIn [] = (b.onMessage1 P body now).withIn []) ∧
        ((b.deliver P chunks).in_ ++ rest = [] ∨ (b.deliver P chunks).state = .closed) := by
  have hb : b.withIn [] = b := by
    rw [← hin]
    exact withIn_self b
  have hframe : b.nextFrame (beBytes 2 body.length ++ body) = some (.message body, []) := by
    have h := nextFrame_message hstate hshort (fun _ => hlong) []
    rwa [List.append_nil] at h
  have hrun := deliver_invariant (P := P) (s := b)
    (I := fun s ahead => (s = b ∧ ahead = beBytes 2 body.length ++ body) ∨
      (∃ now, s = (b.onMessage1 P body now).withIn []) ∧ (ahead = [] ∨ s.state = .closed))
    ?_ ?_ chunks (.inl ⟨hb, by rw [hin, List.nil_append, hstream]⟩)
  · rcases hrun with ⟨hsame, hahead⟩ | hdone
    · refine .inl ⟨hsame, fun hrest => ?_⟩
      have hparsed := (parsed_of_in_nil (s := b) hin).deliver (P := P) chunks
      rw [hrest, List.append_nil] at hahead
      unfold Parsed at hparsed
      rw [← nextFrame_withIn _ [], hsame, hahead, hframe] at hparsed
      cases hparsed
    · exact .inr hdone
  · rintro s ahead c hclosed (⟨rfl, -⟩ | ⟨hdone, -⟩)
    · rw [hstate] at hclosed
      cases hclosed
    · exact .inr ⟨hdone, .inr hclosed⟩
  · rintro s ahead f r now hopen (⟨rfl, rfl⟩ | ⟨-, rfl | hclosed⟩) hnext
    · rw [hframe] at hnext
      obtain ⟨rfl, rfl⟩ := Prod.mk.inj (Option.some.inj hnext)
      refine .inr ⟨⟨now, ?_⟩, .inl rfl⟩
      unfold act
      rw [hrole]
      rfl
    · rw [nextFrame_nil] at hnext
      cases hnext
    · exact absurd hclosed hopen

/-- The hellos in front of message 2. -/
def helloFrames (hellos : List AttemptNonce) : Bytes := hellos.flatMap hello

theorem nextFrame_helloFrames {s : TcpSession} (hstate : s.state = .handshaking)
    (hinit : s.initiator = true) (attempt : AttemptNonce) (hellos : List AttemptNonce)
    (rest : Bytes) :
    s.nextFrame (helloFrames (attempt :: hellos) ++ rest) =
      some (.hello, helloFrames hellos ++ rest) := by
  rw [helloFrames, List.flatMap_cons, List.append_assoc]
  exact nextFrame_hello hstate hinit attempt _

/-- An initiator that is sent hellos and then message 2, and for which any frame
behind that comes too late, still waits for the rest of message 2, or has done
with it what `on_bytes` does. -/
theorem initiator_deliver {a : TcpSession} (hstate : a.state = .handshaking)
    (hrole : a.initiator = true) (hin : a.in_ = []) (hellos : List AttemptNonce) {body : Bytes}
    (hshort : body.length < 256) {later : Bytes}
    (hlate : ∀ now, later = [] ∨ (a.onMessage2 P body now).state = .closed)
    {chunks : List (Bytes × Instant)} {rest : Bytes}
    (hstream : stream chunks ++ rest =
      helloFrames hellos ++ (beBytes 2 body.length ++ body ++ later)) :
    ((a.deliver P chunks).withIn [] = a ∧ rest ≠ []) ∨
      ∃ now, (a.deliver P chunks).withIn [] = (a.onMessage2 P body now).withIn [] := by
  have ha : a.withIn [] = a := by
    rw [← hin]
    exact withIn_self a
  have hframe := nextFrame_message hstate hshort
    (fun h => by rw [hrole] at h; cases h) later
  have hfirst : ∀ hs : List AttemptNonce, ∃ f r,
      a.nextFrame (helloFrames hs ++ (beBytes 2 body.length ++ body ++ later)) = some (f, r) := by
    intro hs
    cases hs with
    | nil => exact ⟨_, _, hframe⟩
    | cons h hs =>
        exact ⟨_, _, nextFrame_helloFrames hstate hrole h hs _⟩
  have hrun := deliver_invariant (P := P) (s := a)
    (I := fun s ahead =>
      (s = a ∧ ∃ hs, ahead = helloFrames hs ++ (beBytes 2 body.length ++ body ++ later)) ∨
      (∃ now, s = (a.onMessage2 P body now).withIn []) ∧ (ahead = [] ∨ s.state = .closed))
    ?_ ?_ chunks (.inl ⟨ha, hellos, by rw [hin, List.nil_append, hstream]⟩)
  · rcases hrun with ⟨hsame, hs, hahead⟩ | ⟨hdone, -⟩
    · refine .inl ⟨hsame, fun hrest => ?_⟩
      have hparsed := (parsed_of_in_nil (s := a) hin).deliver (P := P) chunks
      rw [hrest, List.append_nil] at hahead
      obtain ⟨f, r, hnext⟩ := hfirst hs
      unfold Parsed at hparsed
      rw [← nextFrame_withIn _ [], hsame, hahead, hnext] at hparsed
      cases hparsed
    · exact .inr hdone
  · rintro s ahead c hclosed (⟨rfl, -⟩ | ⟨hdone, -⟩)
    · rw [hstate] at hclosed
      cases hclosed
    · exact .inr ⟨hdone, .inr hclosed⟩
  · rintro s ahead f r now hopen (⟨rfl, hs, rfl⟩ | ⟨-, rfl | hclosed⟩) hnext
    · cases hs with
      | nil =>
          rw [helloFrames, List.flatMap_nil, List.nil_append, hframe] at hnext
          obtain ⟨rfl, rfl⟩ := Prod.mk.inj (Option.some.inj hnext)
          have hact : s.act P (.message body) now = s.onMessage2 P body now := by
            unfold act
            rw [hrole]
            rfl
          rw [hact]
          exact .inr ⟨⟨now, rfl⟩, hlate now⟩
      | cons h hs =>
          rw [nextFrame_helloFrames hstate hrole] at hnext
          obtain ⟨rfl, rfl⟩ := Prod.mk.inj (Option.some.inj hnext)
          exact .inl ⟨ha, hs, rfl⟩
    · rw [nextFrame_nil] at hnext
      cases hnext
    · exact absurd hclosed hopen

/-- Hellos alone leave an initiator where it was. -/
theorem initiator_deliver_hellos {a : TcpSession} (hstate : a.state = .handshaking)
    (hrole : a.initiator = true) (hin : a.in_ = []) (hellos : List AttemptNonce)
    {chunks : List (Bytes × Instant)} {rest : Bytes}
    (hstream : stream chunks ++ rest = helloFrames hellos) :
    (a.deliver P chunks).withIn [] = a := by
  have ha : a.withIn [] = a := by
    rw [← hin]
    exact withIn_self a
  have hrun := deliver_invariant (P := P) (s := a)
    (I := fun s ahead => s = a ∧ ((∃ hs, ahead = helloFrames hs) ∨ s.state = .closed))
    ?_ ?_ chunks ⟨ha, .inl ⟨hellos, by rw [hin, List.nil_append, hstream]⟩⟩
  · exact hrun.1
  · rintro s ahead c hclosed ⟨hsame, -⟩
    exact ⟨hsame, .inr hclosed⟩
  · rintro s ahead f r now hopen ⟨rfl, ⟨hs, rfl⟩ | hclosed⟩ hnext
    · cases hs with
      | nil =>
          rw [helloFrames, List.flatMap_nil, nextFrame_nil] at hnext
          cases hnext
      | cons h hs =>
          rw [helloFrames, List.flatMap_cons, nextFrame_hello hstate hrole] at hnext
          obtain ⟨rfl, rfl⟩ := Prod.mk.inj (Option.some.inj hnext)
          exact ⟨ha, .inl ⟨hs, rfl⟩⟩
    · exact absurd hclosed hopen

/-! ## The two factories

The arguments of both ends, what the Noise states are made of, and message 1 as
it is queued. -/

/-- The arguments of a factory that the two ends have to agree on. -/
structure Args where
  topic : TopicId
  keyEpoch : UInt8
  psk : Option SymKey
  self : DevId
  peer : DevId
  attempt : AttemptNonce
  deriving DecidableEq

namespace Args

/-- `initiate` with these arguments. -/
def initiate (P : Primitives) (x : Args) (cfg : TcpSessionConfig) (now : Instant)
    (random : SecretKey) (padding : Vector UInt8 16) : TcpSession :=
  TcpSession.initiate P cfg x.topic x.keyEpoch x.psk x.self x.peer x.attempt now random padding

/-- `respond` with these arguments. -/
def respond (P : Primitives) (x : Args) (cfg : TcpSessionConfig) (now : Instant)
    (random : SecretKey) : TcpSession :=
  TcpSession.respond P cfg x.topic x.keyEpoch x.psk x.self x.peer x.attempt now random

/-- The Noise state either factory starts from. -/
def noise (P : Primitives) (x : Args) (initiator : Bool) (random : SecretKey) : HandshakeState :=
  .create P (patternFor x.psk) initiator (prologue x.topic x.keyEpoch x.attempt) x.psk random

/-- The two ends were built for each other. -/
def Matching (i r : Args) : Prop :=
  i.topic = r.topic ∧ i.keyEpoch = r.keyEpoch ∧ i.psk = r.psk ∧ i.attempt = r.attempt ∧
    i.self = r.peer ∧ i.peer = r.self

instance (i r : Args) : Decidable (Matching i r) :=
  inferInstanceAs (Decidable (_ ∧ _ ∧ _ ∧ _ ∧ _ ∧ _))

/-- The payload of message 1. -/
def hail (x : Args) (padding : Vector UInt8 16) : Bytes := x.self.toList ++ padding.toList

/-- The calls the handshake of two ends makes. -/
def calls (P : Primitives) (i r : Args) (ri rr : SecretKey) (padding : Vector UInt8 16) :
    List Call × List Call :=
  exchangeCalls P (i.noise P true ri) (r.noise P false rr) (i.hail padding) r.self.toList

variable (x : Args)

theorem hail_room (padding : Vector UInt8 16) (p : Pattern) :
    (x.hail padding).length + HandshakeState.messageOverhead p 0 ≤ 80 := by
  cases p <;> simp [hail, HandshakeState.messageOverhead, kDhLen, kTagLen]

theorem self_room (p : Pattern) :
    x.self.toList.length + HandshakeState.messageOverhead p 1 ≤ 64 := by
  cases p <;> simp [HandshakeState.messageOverhead, kDhLen, kTagLen]

/-- Message 1 is always written. -/
theorem noise_writeMessage (random : SecretKey) (padding : Vector UInt8 16) :
    ∃ m hs, (x.noise P true random).writeMessage P (x.hail padding) 256 = some (m, hs) := by
  have hroom := x.hail_room padding (patternFor x.psk)
  exact ⟨_, _, writeMessage_first _ _ _ _ (by omega)⟩

/-- What `initiate` returns, by the message it writes. -/
theorem initiate_eq (cfg : TcpSessionConfig) (now : Instant) {random : SecretKey}
    {padding : Vector UInt8 16} {m : Bytes} {hs : HandshakeState}
    (h : (x.noise P true random).writeMessage P (x.hail padding) 256 = some (m, hs)) :
    x.initiate P cfg now random padding =
      { TcpSession.create P cfg true x.topic x.keyEpoch x.psk x.self x.peer x.attempt now random
          with
        hs := some hs
        out := beBytes 2 (kAttemptLen + m.length) ++ (x.attempt.toList ++ m) } := by
  unfold initiate TcpSession.initiate
  dsimp only [TcpSession.create, Option.bind_some]
  unfold noise hail at h
  rw [h]
  simp only [List.nil_append, List.append_assoc]

end Args

/-! ## The checks around the messages

Each handler either ends the session or has seen the right attempt, a message
that verified and the expected device in its payload. -/

theorem length_prologue (topic : TopicId) (keyEpoch : UInt8) (attempt : AttemptNonce) :
    (prologue topic keyEpoch attempt).length = 48 := by
  have hlabel : (ascii "uconnect:v4:tcp").length = 15 := by decide
  simp [prologue, hlabel]

theorem prologue_inj {topic topic' : TopicId} {keyEpoch keyEpoch' : UInt8}
    {attempt attempt' : AttemptNonce}
    (h : prologue topic keyEpoch attempt = prologue topic' keyEpoch' attempt') :
    topic = topic' ∧ keyEpoch = keyEpoch' ∧ attempt = attempt' := by
  unfold prologue at h
  obtain ⟨h, hattempt⟩ := List.append_inj' h (by simp)
  obtain ⟨h, hepoch⟩ := List.append_inj' h rfl
  have htopic := List.append_cancel_left h
  exact ⟨Vector.toList_inj.mp htopic, List.singleton_inj.mp hepoch, Vector.toList_inj.mp hattempt⟩

/-- A payload that opens with a dev id claims that one and no other. -/
theorem claims_append (dev dev' : DevId) (rest : Bytes) :
    claims (dev.toList ++ rest) dev' = true ↔ dev = dev' := by
  have htake : (dev.toList ++ rest).take kDevIdLen = dev.toList :=
    List.take_left' (by simp [kDevIdLen])
  unfold claims
  rw [htake, Bool.and_eq_true, beq_iff_eq, Vector.toList_inj, decide_eq_true_iff]
  simp [kDevIdLen]

/-- What the responder does with message 1. -/
theorem onMessage1_cases {b : TcpSession} {hs : HandshakeState} (hhs : b.hs = some hs)
    (frame : Bytes) (now : Instant) :
    b.onMessage1 P frame now = b.fail .local ∨
      frame.take kAttemptLen = b.attempt.toList ∧ ∃ plain r₁ m r₂,
        hs.readMessage P (frame.drop kAttemptLen) 256 = some (plain, r₁) ∧
        claims plain b.peer = true ∧ r₁.writeMessage P b.self.toList 256 = some (m, r₂) ∧
        b.onMessage1 P frame now =
          { b with out := b.out ++ beBytes 2 m.length ++ m }.finish (r₂.split P) now := by
  unfold onMessage1
  rw [hhs, Option.bind_some]
  split
  · exact .inl rfl
  rename_i hattempt
  cases hread : hs.readMessage P (frame.drop kAttemptLen) 256 with
  | none => exact .inl rfl
  | some q =>
      obtain ⟨plain, r₁⟩ := q
      dsimp only
      cases hclaims : claims plain b.peer with
      | false => exact .inl rfl
      | true =>
          cases hwrite : r₁.writeMessage P b.self.toList 256 with
          | none => exact .inl rfl
          | some q =>
              exact .inr ⟨not_not.mp hattempt, plain, r₁, q.1, q.2, rfl, hclaims, hwrite, rfl⟩

/-- What the initiator does with message 2. -/
theorem onMessage2_cases {a : TcpSession} {hs : HandshakeState} (hhs : a.hs = some hs)
    (frame : Bytes) (now : Instant) :
    a.onMessage2 P frame now = a.fail .local ∨ ∃ plain i₂,
      hs.readMessage P frame 256 = some (plain, i₂) ∧ claims plain a.peer = true ∧
      a.onMessage2 P frame now = a.finish (i₂.split P) now := by
  unfold onMessage2
  rw [hhs, Option.bind_some]
  cases hread : hs.readMessage P frame 256 with
  | none => exact .inl rfl
  | some q =>
      obtain ⟨plain, i₂⟩ := q
      dsimp only
      cases hclaims : claims plain a.peer with
      | false => exact .inl rfl
      | true => exact .inr ⟨plain, i₂, rfl, hclaims, rfl⟩

/-! ## Matching arguments

Both ends get through the checks, and what Noise says of the keys is said of the
sessions. -/

section Matching

variable {i r : Args} {ri rr : SecretKey} {shared : PublicKey} {padding : Vector UInt8 16}

/-- The Noise exchange of two ends that match goes through. -/
theorem Args.Matching.completes (hmatch : Args.Matching i r) (hP : P.aead.Lawful)
    (hi : P.x25519 ri (P.publicOf rr) = some shared)
    (hr : P.x25519 rr (P.publicOf ri) = some shared) (padding : Vector UInt8 16) :
    ∃ m₁ m₂ i₁ r₁ i₂ r₂, Completes P (i.noise P true ri) (r.noise P false rr) (i.hail padding)
      r.self.toList m₁ m₂ i₁ r₁ i₂ r₂ := by
  obtain ⟨htopic, hepoch, hpsk, hattempt, -, -⟩ := hmatch
  have hroom₁ := i.hail_room padding (patternFor i.psk)
  have hroom₂ := r.self_room (patternFor i.psk)
  have h := exchange_agrees hP (patternFor i.psk) (prologue i.topic i.keyEpoch i.attempt) i.psk hi
    hr (Nat.le_trans hroom₁ (by decide)) (Nat.le_trans hroom₂ (by decide))
  unfold Args.noise
  rw [← htopic, ← hepoch, ← hpsk, ← hattempt]
  exact h

variable {m₁ m₂ : Bytes} {i₁ r₁ i₂ r₂ : HandshakeState}

/-- The responder's end of a handshake between matching arguments, in any
pieces. -/
theorem responder_establishes (hmatch : Args.Matching i r)
    (hdone : Completes P (i.noise P true ri) (r.noise P false rr) (i.hail padding) r.self.toList
      m₁ m₂ i₁ r₁ i₂ r₂) (cfg : TcpSessionConfig) (start now : Instant) :
    (r.respond P cfg start rr).onMessage1 P (i.attempt.toList ++ m₁) now =
      { r.respond P cfg start rr with out := beBytes 2 m₂.length ++ m₂ }.finish
        (r₂.split P) now := by
  obtain ⟨-, -, -, hattempt, hself, -⟩ := hmatch
  have htake : (i.attempt.toList ++ m₁).take kAttemptLen = r.attempt.toList := by
    rw [hattempt]
    exact List.take_left' (by simp [kAttemptLen])
  have hdrop : (i.attempt.toList ++ m₁).drop kAttemptLen = m₁ :=
    List.drop_left' (by simp [kAttemptLen])
  have hclaims : claims (i.hail padding) r.peer = true := (claims_append _ _ _).mpr hself
  have hhs : (r.respond P cfg start rr).hs = some (r.noise P false rr) := rfl
  unfold onMessage1
  rw [hhs, Option.bind_some, htake, hdrop, hdone.read₁, if_neg (fun h => h rfl)]
  dsimp only
  rw [show (r.respond P cfg start rr).peer = r.peer from rfl, hclaims,
    show (r.respond P cfg start rr).self = r.self from rfl, hdone.write₂]
  rfl

/-- The initiator's end, with hellos in front of message 2. -/
theorem initiator_establishes (hmatch : Args.Matching i r)
    (hdone : Completes P (i.noise P true ri) (r.noise P false rr) (i.hail padding) r.self.toList
      m₁ m₂ i₁ r₁ i₂ r₂) {a : TcpSession} (hhs : a.hs = some i₁) (hpeer : a.peer = i.peer)
    (now : Instant) : a.onMessage2 P m₂ now = a.finish (i₂.split P) now := by
  have hclaims : claims r.self.toList a.peer = true := by
    have h := (claims_append r.self a.peer []).mpr (by rw [hpeer]; exact hmatch.2.2.2.2.2.symm)
    rwa [List.append_nil] at h
  unfold onMessage2
  rw [hhs, Option.bind_some, hdone.read₂]
  dsimp only
  rw [hclaims]
  rfl

end Matching

/-! ## Arguments that differ

A session that is established had a message verified, and that binds the
arguments. -/

section Mismatch

variable {i r : Args} {ri rr : SecretKey} {padding : Vector UInt8 16}

/-- If the initiator accepts the answer to its message 1, the two ends match. -/
theorem matching_of_established (hP : P.aead.Lawful)
    (hfree : CollisionFree P
      ((Args.calls P i r ri rr padding).1 ++ (Args.calls P i r ri rr padding).2))
    (hauth : Authentic (Args.calls P i r ri rr padding).1 (Args.calls P i r ri rr padding).2)
    {m₁ m₂ plain₁ plain₂ : Bytes} {i₁ r₁ i₂ r₂ : HandshakeState}
    (hwrite₁ : (i.noise P true ri).writeMessage P (i.hail padding) 256 = some (m₁, i₁))
    (hread₁ : (r.noise P false rr).readMessage P m₁ 256 = some (plain₁, r₁))
    (hwrite₂ : r₁.writeMessage P r.self.toList 256 = some (m₂, r₂))
    (hread₂ : i₁.readMessage P m₂ 256 = some (plain₂, i₂))
    (hclaims₁ : claims plain₁ r.peer = true) (hclaims₂ : claims plain₂ i.peer = true) :
    Args.Matching i r := by
  have hroom₁ := i.hail_room padding (patternFor i.psk)
  have hroom₂ := r.self_room (patternFor r.psk)
  have hpro (x : Args) : (prologue x.topic x.keyEpoch x.attempt).length ≠ kHashLen := by
    rw [length_prologue]
    decide
  obtain ⟨⟨hpattern, hprologue, hpsk⟩, rfl, rfl⟩ :=
    exchange_binds hP (hpro i) (hpro r) (by omega) (by omega)
      ⟨m₁, m₂, i₁, r₁, hwrite₁, hread₁, hwrite₂, hread₂⟩ rfl hfree hauth
  obtain ⟨htopic, hepoch, hattempt⟩ := prologue_inj hprologue
  have hself := (claims_append i.self r.peer padding.toList).mp hclaims₁
  have hpeer := (claims_append r.self i.peer []).mp (by rwa [List.append_nil])
  refine ⟨htopic, hepoch, ?_, hattempt, hself, hpeer.symm⟩
  cases hpi : i.psk with
  | none =>
      cases hpr : r.psk with
      | none => rfl
      | some k => simp [patternFor, hpi, hpr] at hpattern
  | some k =>
      cases hpr : r.psk with
      | none => simp [patternFor, hpi, hpr] at hpattern
      | some k' =>
          have hk := hpsk (by simp [patternFor, hpi])
          rw [hpi, hpr] at hk
          exact congrArg some hk

end Mismatch

/-! ## Agreement

Both directions together, for ends that are never given anything but what the
other one wrote and hellos. -/

theorem takeOutput_initiate (x : Args) (cfg : TcpSessionConfig) (now : Instant)
    {random : SecretKey} {padding : Vector UInt8 16} {m : Bytes} {hs : HandshakeState}
    (h : (x.noise P true random).writeMessage P (x.hail padding) 256 = some (m, hs)) :
    (x.initiate P cfg now random padding).takeOutput.1 =
        beBytes 2 (x.attempt.toList ++ m).length ++ (x.attempt.toList ++ m) ∧
      (x.initiate P cfg now random padding).takeOutput.2 =
        { TcpSession.create P cfg true x.topic x.keyEpoch x.psk x.self x.peer x.attempt now
            random with hs := some hs } := by
  rw [x.initiate_eq cfg now h]
  refine ⟨?_, rfl⟩
  rw [List.length_append, Vector.length_toList]
  rfl

section Agreement

variable {i r : Args} {ri rr : SecretKey} {shared : PublicKey} {padding : Vector UInt8 16}

/-- Message 1 and its frame are short. -/
theorem length_message1 (hP : P.aead.Lawful) (i : Args) {m : Bytes} {hs : HandshakeState}
    (h : (i.noise P true ri).writeMessage P (i.hail padding) 256 = some (m, hs)) :
    (i.attempt.toList ++ m).length < 256 ∧ kAttemptLen ≤ (i.attempt.toList ++ m).length := by
  have hroom := i.hail_room padding (patternFor i.psk)
  have hlen := length_writeMessage_first hP (by omega) h
  rw [List.length_append, hlen, Vector.length_toList]
  exact ⟨by omega, Nat.le_add_right _ _⟩

/-- So is message 2. -/
theorem length_message2 (hP : P.aead.Lawful) (r : Args) {m₁ m₂ plain : Bytes}
    {r₁ r₂ : HandshakeState}
    (hread : (r.noise P false rr).readMessage P m₁ 256 = some (plain, r₁))
    (hwrite : r₁.writeMessage P r.self.toList 256 = some (m₂, r₂)) : m₂.length < 256 := by
  have hroom := r.self_room (patternFor r.psk)
  have hlen := length_writeMessage_second hP (by omega) hread hwrite
  omega

variable (cfgI cfgR : TcpSessionConfig) (nowI nowR : Instant)

theorem established_of_matching (hmatch : Args.Matching i r) (hP : P.aead.Lawful)
    (hi : P.x25519 ri (P.publicOf rr) = some shared)
    (hr : P.x25519 rr (P.publicOf ri) = some shared) {toR toI : List (Bytes × Instant)}
    {hellos : List AttemptNonce}
    (hR : stream toR = (i.initiate P cfgI nowI ri padding).takeOutput.1)
    (hI : stream toI = helloFrames hellos ++
      ((r.respond P cfgR nowR rr).deliver P toR).takeOutput.1) :
    ∃ si sr, Mirrored si sr ∧
      (∃ now, ((i.initiate P cfgI nowI ri padding).takeOutput.2.deliver P toI).withIn [] =
        ((i.initiate P cfgI nowI ri padding).takeOutput.2.finish si now).withIn []) ∧
      ∃ now out, ((r.respond P cfgR nowR rr).deliver P toR).withIn [] =
        ({ r.respond P cfgR nowR rr with out := out }.finish sr now).withIn [] := by
  obtain ⟨m₁, m₂, i₁, r₁, i₂, r₂, hdone⟩ := hmatch.completes hP hi hr padding
  obtain ⟨hout, htaken⟩ := takeOutput_initiate i cfgI nowI hdone.write₁
  obtain ⟨hshort₁, hlong₁⟩ := length_message1 hP i hdone.write₁
  have hshort₂ := length_message2 hP r hdone.read₁ hdone.write₂
  refine ⟨i₂.split P, r₂.split P, hdone.mirrored, ?_⟩
  -- the responder
  rw [hout, ← List.append_nil (stream toR)] at hR
  have hresponder := responder_deliver (P := P) (b := r.respond P cfgR nowR rr) rfl rfl rfl
    hshort₁ hlong₁ hR
  rcases hresponder with ⟨-, hrest⟩ | ⟨⟨nowR', hb⟩, -⟩
  · exact absurd rfl hrest
  rw [responder_establishes hmatch hdone cfgR nowR nowR'] at hb
  have hreply : ((r.respond P cfgR nowR rr).deliver P toR).takeOutput.1 =
      beBytes 2 m₂.length ++ m₂ := congrArg TcpSession.out hb
  refine ⟨?_, nowR', _, hb⟩
  -- the initiator
  rw [hreply, ← List.append_nil (stream toI), ← List.append_nil (_ ++ m₂)] at hI
  rw [htaken]
  have hinitiator := initiator_deliver (P := P)
    (a := { TcpSession.create P cfgI true i.topic i.keyEpoch i.psk i.self i.peer i.attempt nowI ri
      with hs := some i₁ }) rfl rfl rfl hellos hshort₂ (fun _ => .inl rfl) hI
  rcases hinitiator with ⟨-, hrest⟩ | ⟨nowI', ha⟩
  · exact absurd rfl hrest
  rw [initiator_establishes hmatch hdone rfl rfl nowI'] at ha
  exact ⟨nowI', ha⟩

/-- What is left of a session that never was established. -/
def NeverEstablished (s : TcpSession) : Prop :=
  s.state ≠ .established ∧ TcpEvent.established ∉ s.events

theorem neverEstablished_fail {s : TcpSession} (hstate : s.state = .handshaking)
    (h : TcpEvent.established ∉ s.events) (cause : CloseCause) :
    (s.fail cause).NeverEstablished := by
  have hopen : s.state ≠ .closed := by
    rw [hstate]
    exact TcpState.noConfusion
  refine ⟨?_, ?_⟩
  · rw [fail_state]
    exact TcpState.noConfusion
  · rw [(fail_of_open hopen cause).2]
    simp [h]

theorem neverEstablished_of_withIn {s t : TcpSession} (h : s.withIn [] = t)
    (ht : t.NeverEstablished) : s.NeverEstablished := by
  subst h
  exact ht

/-- What a responder sends back to an initiator, and whatever it sends behind
that once it is established. -/
def answer (b : TcpSession) (later : Bytes) : Bytes :=
  b.takeOutput.1 ++ if b.state = .established then later else []

/-- The answer to message 1: nothing, or message 2. -/
theorem answer_cases (hP : P.aead.Lawful) {m₁ : Bytes} {i₁ : HandshakeState}
    (hwrite₁ : (i.noise P true ri).writeMessage P (i.hail padding) 256 = some (m₁, i₁))
    {toR : List (Bytes × Instant)} {rest : Bytes}
    (hR : stream toR ++ rest =
      beBytes 2 (i.attempt.toList ++ m₁).length ++ (i.attempt.toList ++ m₁)) (later : Bytes) :
    answer ((r.respond P cfgR nowR rr).deliver P toR) later = [] ∨
      i.attempt = r.attempt ∧ ∃ plain₁ r₁ m₂ r₂,
        (r.noise P false rr).readMessage P m₁ 256 = some (plain₁, r₁) ∧
        claims plain₁ r.peer = true ∧ r₁.writeMessage P r.self.toList 256 = some (m₂, r₂) ∧
        answer ((r.respond P cfgR nowR rr).deliver P toR) later =
          beBytes 2 m₂.length ++ m₂ ++ later := by
  obtain ⟨hshort₁, hlong₁⟩ := length_message1 hP i hwrite₁
  -- the answer depends on the session's state and output only
  have hanswer : ∀ t : TcpSession, ((r.respond P cfgR nowR rr).deliver P toR).withIn [] = t →
      answer ((r.respond P cfgR nowR rr).deliver P toR) later = answer t later := by
    rintro t rfl
    rfl
  have hresponder := responder_deliver (P := P) (b := r.respond P cfgR nowR rr) rfl rfl rfl
    hshort₁ hlong₁ hR
  rcases hresponder with ⟨hb, -⟩ | ⟨⟨now, hb⟩, -⟩
  · rw [hanswer _ hb]
    exact .inl rfl
  rw [hanswer _ hb]
  have hcases := onMessage1_cases (P := P) (b := r.respond P cfgR nowR rr) rfl
    (i.attempt.toList ++ m₁) now
  rw [List.take_left' (by simp [kAttemptLen]), List.drop_left' (by simp [kAttemptLen])] at hcases
  rcases hcases with hfail | ⟨hattempt, plain₁, r₁, m₂, r₂, hread, hclaims, hwrite, hdone⟩
  · rw [hfail]
    refine .inl ?_
    have hopen : (r.respond P cfgR nowR rr).state ≠ .closed := TcpState.noConfusion
    unfold answer takeOutput
    rw [withIn_state, fail_state, if_neg TcpState.noConfusion, List.append_nil]
    exact (fail_of_open hopen .local).1
  · rw [hdone]
    exact .inr ⟨Vector.toList_inj.mp hattempt, plain₁, r₁, m₂, r₂, hread, hclaims, hwrite, rfl⟩

theorem neverEstablished_of_mismatch (hmis : ¬ Args.Matching i r) (hP : P.aead.Lawful)
    (hfree : CollisionFree P
      ((Args.calls P i r ri rr padding).1 ++ (Args.calls P i r ri rr padding).2))
    (hauth : Authentic (Args.calls P i r ri rr padding).1 (Args.calls P i r ri rr padding).2)
    {toR toI : List (Bytes × Instant)} {hellos : List AttemptNonce} {later : Bytes}
    (hR : stream toR <+: (i.initiate P cfgI nowI ri padding).takeOutput.1)
    (hI : stream toI <+: helloFrames hellos ++
      answer ((r.respond P cfgR nowR rr).deliver P toR) later) :
    ((i.initiate P cfgI nowI ri padding).takeOutput.2.deliver P toI).NeverEstablished := by
  obtain ⟨m₁, i₁, hwrite₁⟩ := i.noise_writeMessage (P := P) ri padding
  obtain ⟨hout, htaken⟩ := takeOutput_initiate i cfgI nowI hwrite₁
  rw [htaken]
  obtain ⟨restR, hR⟩ := hR
  obtain ⟨restI, hI⟩ := hI
  rw [hout] at hR
  generalize ha : ({ TcpSession.create P cfgI true i.topic i.keyEpoch i.psk i.self i.peer i.attempt
    nowI ri with hs := some i₁ } : TcpSession) = a
  have hstate : a.state = .handshaking := by rw [← ha]; rfl
  have hrole : a.initiator = true := by rw [← ha]; rfl
  have hin : a.in_ = [] := by rw [← ha]; rfl
  have hhs : a.hs = some i₁ := by rw [← ha]
  have hpeer : a.peer = i.peer := by rw [← ha]; rfl
  have hfresh : TcpEvent.established ∉ a.events := by rw [← ha]; simp [TcpSession.create]
  have hwaiting : a.NeverEstablished := ⟨by rw [hstate]; exact TcpState.noConfusion, hfresh⟩
  rcases answer_cases cfgR nowR hP hwrite₁ hR later with
    hnone | ⟨hattempt, plain₁, r₁, m₂, r₂, hread₁, hclaims₁, hwrite₂, hanswer⟩
  · rw [hnone, List.append_nil] at hI
    exact neverEstablished_of_withIn (initiator_deliver_hellos hstate hrole hin hellos hI) hwaiting
  · rw [hanswer] at hI
    have hfail : ∀ now, a.onMessage2 P m₂ now = a.fail .local := by
      intro now
      rcases onMessage2_cases hhs m₂ now with hfail | ⟨plain₂, i₂, hread₂, hclaims₂, -⟩
      · exact hfail
      · rw [hpeer] at hclaims₂
        exact absurd (matching_of_established hP hfree hauth hwrite₁ hread₁ hwrite₂ hread₂ hclaims₁
          hclaims₂) hmis
    have hinitiator := initiator_deliver (P := P) hstate hrole hin hellos
      (length_message2 hP r hread₁ hwrite₂)
      (fun now => .inr (by rw [hfail now, fail_state])) hI
    rcases hinitiator with ⟨hsame, -⟩ | ⟨now, hdone⟩
    · exact neverEstablished_of_withIn hsame hwaiting
    · rw [hfail now] at hdone
      exact neverEstablished_of_withIn hdone (neverEstablished_fail hstate hfresh _)

end Agreement

/-- Handshake agreement.  Ends that match, whatever the chunks, their times and
the hellos in front of message 2, end established with one handshake hash, one
exported secret and mirrored ciphers.  With ends that do not match, the
initiator is never established, however much of either stream has arrived. -/
theorem handshake_agreement (hP : P.aead.Lawful) {ri rr : SecretKey} {shared : PublicKey}
    (hi : P.x25519 ri (P.publicOf rr) = some shared)
    (hr : P.x25519 rr (P.publicOf ri) = some shared) (i r : Args)
    (cfgI cfgR : TcpSessionConfig) (nowI nowR : Instant) (padding : Vector UInt8 16)
    (hellos : List AttemptNonce) (toR toI : List (Bytes × Instant)) :
    let a := i.initiate P cfgI nowI ri padding
    let b := r.respond P cfgR nowR rr
    let a' := a.takeOutput.2.deliver P toI
    let b' := b.deliver P toR
    (Args.Matching i r → stream toR = a.takeOutput.1 →
      stream toI = helloFrames hellos ++ b'.takeOutput.1 →
      a'.state = .established ∧ b'.state = .established ∧
        a'.handshakeHash = b'.handshakeHash ∧ a'.exported = b'.exported ∧
        a'.sendCs = b'.recvCs ∧ a'.recvCs = b'.sendCs) ∧
    (¬ Args.Matching i r →
      CollisionFree P ((Args.calls P i r ri rr padding).1 ++ (Args.calls P i r ri rr padding).2) →
      Authentic (Args.calls P i r ri rr padding).1 (Args.calls P i r ri rr padding).2 →
      ∀ later, stream toR <+: a.takeOutput.1 →
        stream toI <+: helloFrames hellos ++ b'.answer later →
        a'.state ≠ .established ∧ TcpEvent.established ∉ a'.events) := by
  intro a b a' b'
  constructor
  · intro hmatch hR hI
    obtain ⟨si, sr, hmirror, ⟨nowI', ha⟩, nowR', out, hb⟩ :=
      established_of_matching cfgI cfgR nowI nowR hmatch hP hi hr hR hI
    refine ⟨congrArg TcpSession.state ha, congrArg TcpSession.state hb, ?_, ?_, ?_, ?_⟩
    · exact (congrArg TcpSession.handshakeHash ha).trans
        (hmirror.handshakeHash.trans (congrArg TcpSession.handshakeHash hb).symm)
    · exact (congrArg TcpSession.exported ha).trans
        (hmirror.exported.trans (congrArg TcpSession.exported hb).symm)
    · exact (congrArg TcpSession.sendCs ha).trans
        (hmirror.send.trans (congrArg TcpSession.recvCs hb).symm)
    · exact (congrArg TcpSession.recvCs ha).trans
        (hmirror.recv.trans (congrArg TcpSession.sendCs hb).symm)
  · intro hmis hfree hauth later hR hI
    exact neverEstablished_of_mismatch cfgI cfgR nowI nowR hmis hP hfree hauth hR hI

/-- The arguments of device 1, that dials device 2 under a key. -/
def sampleDialer : Args where
  topic := Vector.replicate 16 7
  keyEpoch := 3
  psk := some (Vector.replicate 32 9)
  self := Vector.replicate 16 1
  peer := Vector.replicate 16 2
  attempt := Vector.replicate 16 5

/-- The arguments of device 2, that awaits it. -/
def sampleListener : Args where
  topic := Vector.replicate 16 7
  keyEpoch := 3
  psk := some (Vector.replicate 32 9)
  self := Vector.replicate 16 2
  peer := Vector.replicate 16 1
  attempt := Vector.replicate 16 5

/-- Device 2 with another key. -/
def sampleStranger : Args := { sampleListener with psk := some (Vector.replicate 32 10) }

/-- Device 1's session. -/
def sampleInitiator : TcpSession :=
  sampleDialer.initiate Primitives.checksum {} 0 (Vector.replicate 32 4) (Vector.replicate 16 8)

/-- Message 1, cut inside its length. -/
def sampleToR : List (Bytes × Instant) :=
  [(sampleInitiator.takeOutput.1.take 1, 1), (sampleInitiator.takeOutput.1.drop 1, 2)]

/-- Device 2's session behind message 1. -/
def sampleAnswerer (r : Args) : TcpSession :=
  (r.respond Primitives.checksum {} 0 (Vector.replicate 32 6)).deliver Primitives.checksum
    sampleToR

/-- Its answer behind a hello of another attempt. -/
def sampleToI (r : Args) : List (Bytes × Instant) :=
  [(helloFrames [Vector.replicate 16 0] ++ (sampleAnswerer r).takeOutput.1, 3)]

/-- Device 1's session in the end. -/
def sampleEnd (r : Args) : TcpSession :=
  sampleInitiator.takeOutput.2.deliver Primitives.checksum (sampleToI r)

theorem stream_sampleToR : stream sampleToR = sampleInitiator.takeOutput.1 := by
  simp only [stream, sampleToR, List.map_cons, List.map_nil, List.flatten_cons, List.flatten_nil,
    List.append_nil, List.take_append_drop]

theorem stream_sampleToI (r : Args) : stream (sampleToI r) =
    helloFrames [Vector.replicate 16 0] ++ (sampleAnswerer r).takeOutput.1 := by
  simp only [stream, sampleToI, List.map_cons, List.map_nil, List.flatten_cons, List.flatten_nil,
    List.append_nil]

/-- Device 2 with the same key ends in agreement with device 1; with another,
device 1 is never established. -/
theorem handshake_agreement_sample :
    ((sampleEnd sampleListener).state = .established ∧
      (sampleEnd sampleListener).handshakeHash = (sampleAnswerer sampleListener).handshakeHash) ∧
    (sampleEnd sampleStranger).state ≠ .established := by
  have hi : Primitives.checksum.x25519 (Vector.replicate 32 4)
      (Primitives.checksum.publicOf (Vector.replicate 32 6)) = some (Vector.replicate 32 2) := by
    decide +kernel
  have hr : Primitives.checksum.x25519 (Vector.replicate 32 6)
      (Primitives.checksum.publicOf (Vector.replicate 32 4)) = some (Vector.replicate 32 2) := by
    decide +kernel
  have hfree : CollisionFree Primitives.checksum
      ((Args.calls Primitives.checksum sampleDialer sampleStranger (Vector.replicate 32 4)
          (Vector.replicate 32 6) (Vector.replicate 16 8)).1 ++
        (Args.calls Primitives.checksum sampleDialer sampleStranger (Vector.replicate 32 4)
          (Vector.replicate 32 6) (Vector.replicate 16 8)).2) := by
    decide +kernel
  have hauth : Authentic
      (Args.calls Primitives.checksum sampleDialer sampleStranger (Vector.replicate 32 4)
        (Vector.replicate 32 6) (Vector.replicate 16 8)).1
      (Args.calls Primitives.checksum sampleDialer sampleStranger (Vector.replicate 32 4)
        (Vector.replicate 32 6) (Vector.replicate 16 8)).2 := by
    decide +kernel
  have hagree := (handshake_agreement Aead.checksum_lawful hi hr sampleDialer sampleListener {} {}
    0 0 (Vector.replicate 16 8) [Vector.replicate 16 0] sampleToR (sampleToI sampleListener)).1
    (by decide) stream_sampleToR (stream_sampleToI _)
  have hnever := (handshake_agreement Aead.checksum_lawful hi hr sampleDialer sampleStranger {} {}
    0 0 (Vector.replicate 16 8) [Vector.replicate 16 0] sampleToR (sampleToI sampleStranger)).2
    (by decide) hfree hauth [] (by rw [stream_sampleToR]; exact List.prefix_rfl)
    (by
      rw [stream_sampleToI]
      exact List.prefix_append_right_inj _ |>.mpr (List.prefix_append _ _))
  exact ⟨⟨hagree.1, hagree.2.2.1⟩, hnever.1⟩

end TcpSession

end UConnect
