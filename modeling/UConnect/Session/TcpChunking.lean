/-
  Session/TcpChunking.lean --- the session does not see how TCP cuts the stream.

  The loop of `on_bytes` is a stream consumer in the sense of
  Foundation/Stream.lean: a frame is recognised by the bytes it is made of, so
  bytes behind it change nothing (`nextFrame_append`), and what is done with a
  frame does not depend on what follows it in the buffer (`Follows.act`).  The
  conclusion about chunks is then the library's.
-/
import UConnect.Foundation.Run
import UConnect.Foundation.Stream
import UConnect.Session.TcpSession

set_option autoImplicit false

namespace UConnect

open UConnect.Foundation UConnect.Crypto

namespace TcpSession

variable {P : Primitives}

/-- A session with another receive buffer. -/
def withIn (s : TcpSession) (buf : Bytes) : TcpSession := { s with in_ := buf }

@[simp] theorem withIn_in (s : TcpSession) (b : Bytes) : (s.withIn b).in_ = b := rfl
@[simp] theorem withIn_state (s : TcpSession) (b : Bytes) : (s.withIn b).state = s.state := rfl
@[simp] theorem withIn_events (s : TcpSession) (b : Bytes) :
    (s.withIn b).events = s.events := rfl
@[simp] theorem withIn_hs (s : TcpSession) (b : Bytes) : (s.withIn b).hs = s.hs := rfl
@[simp] theorem withIn_initiator (s : TcpSession) (b : Bytes) :
    (s.withIn b).initiator = s.initiator := rfl
@[simp] theorem withIn_self_id (s : TcpSession) (b : Bytes) : (s.withIn b).self = s.self := rfl
@[simp] theorem withIn_peer (s : TcpSession) (b : Bytes) : (s.withIn b).peer = s.peer := rfl
@[simp] theorem withIn_attempt (s : TcpSession) (b : Bytes) :
    (s.withIn b).attempt = s.attempt := rfl
@[simp] theorem withIn_recvCs (s : TcpSession) (b : Bytes) :
    (s.withIn b).recvCs = s.recvCs := rfl
@[simp] theorem withIn_withIn (s : TcpSession) (b c : Bytes) :
    (s.withIn b).withIn c = s.withIn c := rfl
@[simp] theorem withIn_self (s : TcpSession) : s.withIn s.in_ = s := rfl
@[simp] theorem nextFrame_withIn (s : TcpSession) (b c : Bytes) :
    (s.withIn b).nextFrame c = s.nextFrame c := rfl

/-! ## Frames

A frame is found in the bytes it is made of: more bytes behind it change
nothing, and taking it leaves fewer. -/

theorem peekHello_append {b : Bytes} (h : kHelloLen ≤ b.length) (x : Bytes) :
    (peekHello (b ++ x)).isNone = (peekHello b).isNone := by
  have hlen : ¬ b.length < kHelloLen := by omega
  have hlen' : ¬ (b ++ x).length < kHelloLen := by
    rw [List.length_append]
    omega
  have htake : (b ++ x).take 2 = b.take 2 :=
    List.take_append_of_le_length (Nat.le_trans (by decide) h)
  unfold peekHello
  rw [if_neg hlen, if_neg hlen', htake]
  rcases Decidable.em (b.take 2 ≠ [kHello0, kHello1]) with hmagic | hmagic
  · rw [if_pos hmagic, if_pos hmagic]
  · rw [if_neg hmagic, if_neg hmagic, Option.isNone_some, Option.isNone_some]

/-- A length-prefixed frame is recognised by its own bytes. -/
theorem prefixed_append {width : Nat} {bad : Nat → Bool} {frame : Bytes → Frame} {b r : Bytes}
    {f : Frame} (h : prefixed width bad frame b = some (f, r)) (x : Bytes) :
    prefixed width bad frame (b ++ x) = some (f, r ++ x) := by
  unfold prefixed at h ⊢
  split at h
  · cases h
  rename_i hhead
  rw [if_neg (by rw [List.length_append]; omega : ¬ (b ++ x).length < width),
    List.take_append_of_le_length (by omega)]
  dsimp only at h ⊢
  split at h
  · rename_i hbad
    obtain ⟨rfl, rfl⟩ := Prod.mk.inj (Option.some.inj h)
    rw [if_pos hbad]
  rename_i hgood
  rw [if_neg hgood]
  split at h
  · cases h
  rename_i hwhole
  obtain ⟨rfl, rfl⟩ := Prod.mk.inj (Option.some.inj h)
  rw [if_neg (by rw [List.length_append]; omega), List.drop_append_of_le_length (by omega),
    List.drop_append_of_le_length (by omega),
    List.take_append_of_le_length (by rw [List.length_drop]; omega)]

/-- It takes its prefix at least, or is bad. -/
theorem prefixed_shrinks {width : Nat} (hwidth : 0 < width) {bad : Nat → Bool}
    {frame : Bytes → Frame} {b r : Bytes} {f : Frame}
    (h : prefixed width bad frame b = some (f, r)) : f = .bad ∨ r.length < b.length := by
  unfold prefixed at h
  split at h
  · cases h
  dsimp only at h
  split at h
  · obtain ⟨rfl, rfl⟩ := Prod.mk.inj (Option.some.inj h)
    exact .inl rfl
  split at h
  · cases h
  · obtain ⟨-, rfl⟩ := Prod.mk.inj (Option.some.inj h)
    rw [List.length_drop]
    exact .inr (by omega)

/-- A prefix of no bytes is never a frame. -/
theorem prefixed_nil {width : Nat} (hwidth : 0 < width) (bad : Nat → Bool)
    (frame : Bytes → Frame) : prefixed width bad frame [] = none := if_pos hwidth

/-- A frame is recognised by its own bytes. -/
theorem nextFrame_append {s : TcpSession} {b r : Bytes} {f : Frame}
    (h : s.nextFrame b = some (f, r)) (x : Bytes) :
    s.nextFrame (b ++ x) = some (f, r ++ x) := by
  unfold nextFrame at h ⊢
  cases hstate : s.state with
  | closed => rw [hstate] at h; cases h
  | established => rw [hstate] at h; exact prefixed_append h x
  | handshaking =>
      rw [hstate] at h
      dsimp only at h ⊢
      have hne : b ≠ [] := by
        rintro rfl
        rw [if_neg (by simp), prefixed_nil (by decide)] at h
        cases h
      have hhead : (b ++ x).head? = b.head? := List.head?_append_of_ne_nil b hne
      rw [hhead]
      split at h
      · rename_i hhello
        rw [if_pos hhello]
        split at h
        · cases h
        rename_i hlen
        rw [if_neg (by rw [List.length_append]; omega : ¬ (b ++ x).length < kHelloLen),
          peekHello_append (by omega)]
        split at h
        · rename_i hbad
          obtain ⟨rfl, rfl⟩ := Prod.mk.inj (Option.some.inj h)
          rw [if_pos hbad]
        · rename_i hgood
          obtain ⟨rfl, rfl⟩ := Prod.mk.inj (Option.some.inj h)
          rw [if_neg hgood, List.drop_append_of_le_length (by omega)]
      · rename_i hhello
        rw [if_neg hhello]
        exact prefixed_append h x

/-- A frame takes at least a byte, or is bad. -/
theorem nextFrame_shrinks {s : TcpSession} {b r : Bytes} {f : Frame}
    (h : s.nextFrame b = some (f, r)) : f = .bad ∨ r.length < b.length := by
  unfold nextFrame at h
  split at h
  · cases h
  · split at h
    · split at h
      · cases h
      rename_i hlen
      split at h
      · obtain ⟨rfl, rfl⟩ := Prod.mk.inj (Option.some.inj h)
        exact .inl rfl
      · obtain ⟨-, rfl⟩ := Prod.mk.inj (Option.some.inj h)
        rw [List.length_drop]
        have hhello : kHelloLen = 18 := rfl
        exact .inr (by omega)
    · exact prefixed_shrinks (by decide) h
  · exact prefixed_shrinks (by decide) h

/-! ## What is done with a frame

No handler looks at the buffer, so whatever is in it comes out again as it was. -/

/-- Two runs of the loop body over buffers `b` and `c`: they end in one state
with their buffers untouched, or in one closed state. -/
def Follows (b c : Bytes) (t t' : TcpSession) : Prop :=
  (∃ u : TcpSession, t = u.withIn b ∧ t' = u.withIn c) ∨ (t = t' ∧ t.state = .closed)

variable {b c : Bytes}

theorem Follows.of_withIn (u : TcpSession) : Follows b c (u.withIn b) (u.withIn c) :=
  .inl ⟨u, rfl, rfl⟩

theorem Follows.fail (s : TcpSession) (cause : CloseCause) :
    Follows b c ((s.withIn b).fail cause) ((s.withIn c).fail cause) := by
  unfold TcpSession.fail
  rw [withIn_state, withIn_state]
  split
  · exact .of_withIn s
  · exact .inr ⟨rfl, rfl⟩

theorem Follows.onMessage2 (s : TcpSession) (frame : Bytes) (now : Instant) :
    Follows b c ((s.withIn b).onMessage2 P frame now) ((s.withIn c).onMessage2 P frame now) := by
  unfold TcpSession.onMessage2
  rw [withIn_hs, withIn_hs, withIn_peer, withIn_peer]
  rcases s.hs.bind fun hs => hs.readMessage P frame 256 with _ | ⟨payload, hs⟩
  · exact .fail s _
  dsimp only
  rcases Bool.eq_false_or_eq_true (claims payload s.peer) with hc | hc
  · rw [hc]
    exact .of_withIn (s.finish (hs.split P) now)
  · rw [hc]
    exact .fail s _

theorem Follows.onMessage1 (s : TcpSession) (frame : Bytes) (now : Instant) :
    Follows b c ((s.withIn b).onMessage1 P frame now) ((s.withIn c).onMessage1 P frame now) := by
  unfold TcpSession.onMessage1
  rw [withIn_hs, withIn_hs, withIn_peer, withIn_peer, withIn_attempt, withIn_attempt]
  rcases Decidable.em (frame.take kAttemptLen ≠ s.attempt.toList) with hatt | hatt
  · rw [if_pos hatt, if_pos hatt]
    exact .fail s _
  rw [if_neg hatt, if_neg hatt]
  rcases s.hs.bind fun hs => hs.readMessage P (frame.drop kAttemptLen) 256 with _ | ⟨payload, hs⟩
  · exact .fail s _
  dsimp only
  rcases Bool.eq_false_or_eq_true (claims payload s.peer) with hc | hc
  · rw [hc, withIn_self_id, withIn_self_id]
    rcases hs.writeMessage P s.self.toList 256 with _ | ⟨msg, hs⟩
    · exact .fail s _
    · exact .of_withIn
        (TcpSession.finish { s with out := s.out ++ beBytes 2 msg.length ++ msg } (hs.split P) now)
  · rw [hc]
    exact .fail s _

theorem handleRecord_withIn (s : TcpSession) (b plain : Bytes) :
    (s.withIn b).handleRecord plain = (s.handleRecord plain).withIn b := by
  unfold handleRecord
  rcases plain with _ | ⟨kind, body⟩
  · rfl
  dsimp only
  rcases Decidable.em (kind = kKeepalive) with hk | hk
  · rw [if_pos hk, if_pos hk]
  rw [if_neg hk, if_neg hk]
  rcases Decidable.em (kind = kClose) with hk | hk
  · rw [if_pos hk, if_pos hk]
    rfl
  rw [if_neg hk, if_neg hk]
  rcases Decidable.em (kind < kFirstUserKind) with hk | hk
  · rw [if_pos hk, if_pos hk]
  · rw [if_neg hk, if_neg hk]
    rfl

theorem Follows.handleRecord (s : TcpSession) (plain : Bytes) :
    Follows b c ((s.withIn b).handleRecord plain) ((s.withIn c).handleRecord plain) :=
  .inl ⟨s.handleRecord plain, handleRecord_withIn s b plain, handleRecord_withIn s c plain⟩

theorem Follows.onRecord (s : TcpSession) (ct : Bytes) (now : Instant) :
    Follows b c ((s.withIn b).onRecord P ct now) ((s.withIn c).onRecord P ct now) := by
  unfold TcpSession.onRecord
  rw [withIn_recvCs, withIn_recvCs]
  rcases s.recvCs.decryptWithAd P [] ct (ct.length - kTagLen) with _ | ⟨plain, cs⟩
  · exact .fail s _
  · exact .handleRecord
      { s with
        recvCs := if incr 64 s.recvRecords % s.cfg.rekeyEvery = 0 then cs.rekey P else cs
        recvRecords := incr 64 s.recvRecords
        lastRecv := now } plain

/-- What is done with a frame does not depend on what follows it. -/
theorem Follows.act (s : TcpSession) (frame : Frame) (now : Instant) :
    Follows b c ((s.withIn b).act P frame now) ((s.withIn c).act P frame now) := by
  cases frame with
  | hello => exact .of_withIn s
  | bad => exact .fail s _
  | record body => exact .onRecord s body now
  | message body =>
      unfold TcpSession.act
      rw [withIn_initiator, withIn_initiator]
      rcases Bool.eq_false_or_eq_true s.initiator with hi | hi
      · rw [hi]
        exact .onMessage2 s body now
      · rw [hi]
        exact .onMessage1 s body now

theorem act_bad_closed (s : TcpSession) (now : Instant) : (s.act P .bad now).state = .closed := by
  unfold act fail
  dsimp only
  split
  · assumption
  · rfl

/-! ## The loop is a stream consumer

The session without its buffer is the state, and one round is one turn of the
consumer. -/

/-- A round of the loop on a state and a buffer kept apart. -/
def consume (P : Primitives) (now : Instant) (s : TcpSession) (b : Bytes) :
    Option (TcpSession × Bytes) :=
  (s.nextFrame b).map fun p =>
    (((s.withIn p.2).act P p.1 now).withIn [], ((s.withIn p.2).act P p.1 now).in_)

theorem consume_cases {now : Instant} {s s' : TcpSession} {b r : Bytes}
    (h : consume P now s b = some (s', r)) :
    ∃ f rest, s.nextFrame b = some (f, rest) ∧
      s' = ((s.withIn rest).act P f now).withIn [] ∧ r = ((s.withIn rest).act P f now).in_ := by
  obtain ⟨⟨f, rest⟩, hnext, heq⟩ := Option.map_eq_some_iff.mp h
  obtain ⟨rfl, rfl⟩ := Prod.mk.inj heq
  exact ⟨f, rest, hnext, rfl, rfl⟩

/-- The loop of `on_bytes` at a fixed instant. -/
def consumer (P : Primitives) (now : Instant) : Consumer TcpSession UInt8 where
  dead s := decide (s.state = .closed)
  step := consume P now
  shrinks := by
    intro s s' b r h hlive
    obtain ⟨f, rest, hnext, rfl, rfl⟩ := consume_cases h
    have hopen := of_decide_eq_false hlive
    rcases nextFrame_shrinks hnext with rfl | hlt
    · exact absurd (act_bad_closed _ now) hopen
    · rcases Follows.act (P := P) (b := rest) (c := rest) s f now with ⟨u, hu, -⟩ | ⟨-, hc⟩
      · rw [hu]
        exact hlt
      · exact absurd hc hopen
  stable := by
    intro s s' b r x h
    obtain ⟨f, rest, hnext, rfl, rfl⟩ := consume_cases h
    rw [consume, nextFrame_append hnext x, Option.map_some]
    rcases Follows.act (P := P) (b := rest) (c := rest ++ x) s f now with
      ⟨u, hu, hu'⟩ | ⟨hsame, hc⟩
    · dsimp only
      rw [hu, hu']
      exact ⟨rest ++ x, rfl, fun _ => rfl⟩
    · refine ⟨_, by rw [hsame], fun hlive => ?_⟩
      exact absurd hc (of_decide_eq_false hlive)

/-- State and buffer apart. -/
def apart (s : TcpSession) : TcpSession × Bytes := (s.withIn [], s.in_)

theorem consume_apart (s : TcpSession) (now : Instant) :
    consume P now (s.withIn []) s.in_ = (s.round P now).map apart := by
  unfold consume round
  rw [Option.map_map, nextFrame_withIn]
  rfl

/-- The loop is the library's, on a state and a buffer kept apart. -/
theorem apart_pump (now : Instant) (n : Nat) (s : TcpSession) :
    apart (s.pump P now n) = (consumer P now).drain n (s.withIn []) s.in_ := by
  induction n generalizing s with
  | zero => rfl
  | succ n ih =>
      unfold pump
      rcases Decidable.em (s.state = .closed) with hc | hc
      · rw [if_pos hc, Consumer.drain_of_dead (decide_eq_true hc)]
        rfl
      rw [if_neg hc]
      have hlive : (consumer P now).dead (s.withIn []) = false := decide_eq_false hc
      have hstep : (consumer P now).step (s.withIn []) s.in_ = (s.round P now).map apart :=
        consume_apart s now
      cases hr : s.round P now with
      | none =>
          rw [hr] at hstep
          rw [Consumer.drain_of_wait hstep]
          rfl
      | some s' =>
          rw [hr] at hstep
          rw [Consumer.drain_succ_of_step hlive hstep]
          exact ih s'

theorem apart_onBytes (s : TcpSession) (bytes : Bytes) (now : Instant) :
    apart (s.onBytes P bytes now) = (consumer P now).feed (apart s) bytes := by
  unfold onBytes Consumer.feed
  rcases Decidable.em (s.state = .closed) with hc | hc
  · rw [if_pos hc, if_pos (show (consumer P now).dead (apart s).1 = true from decide_eq_true hc)]
  · rw [if_neg hc, if_neg (by
      rw [show (consumer P now).dead (apart s).1 = false from decide_eq_false hc]
      exact Bool.false_ne_true)]
    exact apart_pump now _ _

/-- Chunk after chunk. -/
theorem apart_foldl_onBytes (now : Instant) (chunks : List Bytes) (s : TcpSession) :
    apart (chunks.foldl (fun s c => s.onBytes P c now) s) =
      chunks.foldl (consumer P now).feed (apart s) := by
  induction chunks generalizing s with
  | nil => rfl
  | cons c cs ih =>
      rw [List.foldl_cons, List.foldl_cons, ih, apart_onBytes]

/-- The receive buffer plays no part in what is done with a frame. -/
theorem act_withIn (s : TcpSession) (b : Bytes) (f : Frame) (now : Instant) :
    ((s.withIn b).act P f now).withIn [] = (s.act P f now).withIn [] := by
  have hfollows := Follows.act (P := P) (b := b) (c := s.in_) s f now
  rw [withIn_self] at hfollows
  rcases hfollows with ⟨u, hb, hs⟩ | ⟨hsame, -⟩
  · rw [hb, hs, withIn_withIn, withIn_withIn]
  · rw [hsame]

/-- The library's invariant rule for `on_bytes`: the invariant speaks of the
session without its buffer and of all bytes still to come. -/
theorem onBytes_invariant {I : TcpSession → Bytes → Prop}
    (hdead : ∀ s b c, s.state = .closed → I s b → I s c)
    (hstep : ∀ s b f r now, s.state ≠ .closed → I s b → s.nextFrame b = some (f, r) →
      I ((s.act P f now).withIn []) r)
    {s : TcpSession} {bytes rest : Bytes} (now : Instant)
    (h : I (s.withIn []) (s.in_ ++ (bytes ++ rest))) :
    I ((s.onBytes P bytes now).withIn []) ((s.onBytes P bytes now).in_ ++ rest) := by
  have hfeed := Consumer.feed_invariant (M := consumer P now) (I := I) (p := apart s)
    (fun s b c hd => hdead s b c (of_decide_eq_true hd)) ?_ h
  · rw [← apart_onBytes] at hfeed
    exact hfeed
  intro s b s' r hlive hI hs
  obtain ⟨f, rest, hnext, rfl, rfl⟩ := consume_cases hs
  have hI' := hstep s b f rest now (of_decide_eq_false hlive) hI hnext
  rw [act_withIn]
  rcases Follows.act (P := P) (b := rest) (c := s.in_) s f now with ⟨u, hb, -⟩ | ⟨hsame, hc⟩
  · rw [hb]
    exact hI'
  · refine hdead _ _ _ ?_ hI'
    rw [hsame] at hc
    exact hc

/-- Chunks that arrive at their own times. -/
def deliver (P : Primitives) (s : TcpSession) (chunks : List (Bytes × Instant)) : TcpSession :=
  chunks.foldl (fun s c => s.onBytes P c.1 c.2) s

/-- The bytes of the chunks. -/
def stream (chunks : List (Bytes × Instant)) : Bytes := (chunks.map Prod.fst).flatten

theorem deliver_invariant {I : TcpSession → Bytes → Prop}
    (hdead : ∀ s b c, s.state = .closed → I s b → I s c)
    (hstep : ∀ s b f r now, s.state ≠ .closed → I s b → s.nextFrame b = some (f, r) →
      I ((s.act P f now).withIn []) r)
    (chunks : List (Bytes × Instant)) {s : TcpSession} {rest : Bytes}
    (h : I (s.withIn []) (s.in_ ++ (stream chunks ++ rest))) :
    I ((s.deliver P chunks).withIn []) ((s.deliver P chunks).in_ ++ rest) := by
  induction chunks generalizing s with
  | nil => exact h
  | cons c cs ih =>
      refine ih (onBytes_invariant hdead hstep c.2 ?_)
      rw [← List.append_assoc c.1]
      exact h

/-! ## Nothing is left to parse between calls

A call of `on_bytes` ends with a buffer whose front is no whole frame, and no
other call makes it one. -/

/-- The session has parsed all it can of what it has buffered. -/
def Parsed (s : TcpSession) : Prop := s.nextFrame s.in_ = none

theorem parsed_of_closed {s : TcpSession} (h : s.state = .closed) : s.Parsed := by
  unfold Parsed nextFrame
  rw [h]

theorem parsed_of_in_nil {s : TcpSession} (h : s.in_ = []) : s.Parsed := by
  unfold Parsed nextFrame
  rw [h]
  cases s.state with
  | closed => rfl
  | established => exact prefixed_nil (by decide) _ _
  | handshaking =>
      dsimp only
      rw [if_neg (by simp)]
      exact prefixed_nil (by decide) _ _

/-- A call that leaves alone what the parser reads keeps the session parsed. -/
theorem Parsed.congr {s t : TcpSession} (h : s.Parsed) (hstate : t.state = s.state)
    (hinit : t.initiator = s.initiator) (hcfg : t.cfg = s.cfg) (hin : t.in_ = s.in_) :
    t.Parsed := by
  unfold Parsed nextFrame at h ⊢
  rw [hstate, hinit, hcfg, hin]
  exact h

theorem settled_apart (now : Instant) (s : TcpSession) :
    (consumer P now).Settled (apart s) ↔ s.Parsed := by
  have hstep : (consumer P now).step (apart s).1 (apart s).2 = none ↔ s.Parsed :=
    Option.map_eq_none_iff
  constructor
  · rintro (hc | hwait)
    · exact parsed_of_closed (of_decide_eq_true hc)
    · exact hstep.mp hwait
  · intro h
    exact .inr (hstep.mpr h)

theorem parsed_onBytes (s : TcpSession) (bytes : Bytes) (now : Instant) :
    (s.onBytes P bytes now).Parsed := by
  rw [← settled_apart (P := P) now, apart_onBytes]
  exact Consumer.settled_feed bytes

theorem Parsed.deliver {s : TcpSession} (h : s.Parsed) (chunks : List (Bytes × Instant)) :
    (s.deliver P chunks).Parsed := by
  induction chunks generalizing s with
  | nil => exact h
  | cons c cs ih => exact ih (parsed_onBytes s c.1 c.2)

theorem fail_state (s : TcpSession) (cause : CloseCause) : (s.fail cause).state = .closed := by
  unfold fail
  split
  · assumption
  · rfl

theorem Parsed.onTimeout {s : TcpSession} (h : s.Parsed) (now : Instant) :
    (s.onTimeout P now).Parsed := by
  unfold TcpSession.onTimeout
  split
  · split
    · exact parsed_of_closed (fail_state s _)
    · exact h
  · split
    · exact parsed_of_closed (fail_state s _)
    · split
      · exact h.congr rfl rfl rfl rfl
      · exact h
  · exact h

theorem Parsed.advanceExported {s : TcpSession} (h : s.Parsed) :
    (TcpSession.advanceExported P s).Parsed := by
  apply h.congr
  all_goals simp only [TcpSession.advanceExported]

theorem iterate_advanceExported_parsed (n : Nat) {s : TcpSession} (h : s.Parsed) :
    ((advanceExported P)^[n] s).Parsed := by
  induction n generalizing s with
  | zero => exact h
  | succ n ih =>
      rw [Function.iterate_succ_apply]
      exact ih h.advanceExported

theorem Parsed.datagramKeys {s : TcpSession} (h : s.Parsed) (epoch : Nat) :
    (s.datagramKeys P epoch).2.Parsed := by
  unfold TcpSession.datagramKeys
  split
  · exact h
  · exact (iterate_advanceExported_parsed _ h).advanceExported

/-- No call leaves a frame unparsed. -/
theorem Parsed.step {s : TcpSession} (h : s.Parsed) (op : Op) : (s.step P op).Parsed := by
  cases op with
  | onBytes bytes now => exact parsed_onBytes s bytes now
  | onEof =>
      simp only [TcpSession.step, TcpSession.onEof]
      split
      · exact parsed_of_closed (fail_state s _)
      · exact h
  | onTimeout now => exact h.onTimeout now
  | send kind body now =>
      simp only [TcpSession.step, TcpSession.send]
      split
      · exact h
      · exact h.congr rfl rfl rfl rfl
  | close reason =>
      simp only [TcpSession.step, TcpSession.close]
      split
      · exact h
      · exact parsed_of_closed rfl
  | keepalive now =>
      simp only [TcpSession.step, TcpSession.keepalive]
      split
      · exact h
      · exact h.congr rfl rfl rfl rfl
  | takeOutput => exact h.congr rfl rfl rfl rfl
  | pollEvent =>
      simp only [TcpSession.step, TcpSession.pollEvent]
      split
      · exact h
      · exact h.congr rfl rfl rfl rfl
  | datagramKeys epoch => exact h.datagramKeys epoch

theorem parsed_run {s : TcpSession} (h : s.Parsed) (ops : List Op) :
    (run (step P) s ops).Parsed :=
  run_invariant (fun _ op hs => hs.step op) h ops

/-! ## Chunks

For every session that can be reached, the pieces in which bytes come make no
difference. -/

/-- The sessions a run of calls reaches from either factory. -/
inductive Reachable (P : Primitives) : TcpSession → Prop where
  | initiate (cfg : TcpSessionConfig) (topic : TopicId) (keyEpoch : UInt8) (psk : Option SymKey)
      (self peer : DevId) (attempt : AttemptNonce) (now : Instant) (random : SecretKey)
      (padding : Vector UInt8 16) (ops : List Op) :
      Reachable P (run (step P)
        (TcpSession.initiate P cfg topic keyEpoch psk self peer attempt now random padding) ops)
  | respond (cfg : TcpSessionConfig) (topic : TopicId) (keyEpoch : UInt8) (psk : Option SymKey)
      (self peer : DevId) (attempt : AttemptNonce) (now : Instant) (random : SecretKey)
      (ops : List Op) :
      Reachable P (run (step P)
        (TcpSession.respond P cfg topic keyEpoch psk self peer attempt now random) ops)

theorem fail_in {s : TcpSession} (h : s.in_ = []) (cause : CloseCause) :
    (s.fail cause).in_ = [] := by
  unfold fail
  split
  · exact h
  · rfl

theorem initiate_in (cfg : TcpSessionConfig) (topic : TopicId) (keyEpoch : UInt8)
    (psk : Option SymKey) (self peer : DevId) (attempt : AttemptNonce) (now : Instant)
    (random : SecretKey) (padding : Vector UInt8 16) :
    (TcpSession.initiate P cfg topic keyEpoch psk self peer attempt now random padding).in_ =
      [] := by
  unfold TcpSession.initiate
  dsimp only
  split
  · exact fail_in rfl _
  · rfl

theorem Reachable.parsed {s : TcpSession} (h : Reachable P s) : s.Parsed := by
  rcases h with ⟨_⟩ | ⟨_⟩
  · exact parsed_run (parsed_of_in_nil (initiate_in ..)) _
  · exact parsed_run (parsed_of_in_nil rfl) _

/-- In how many chunks a byte string arrives does not matter: everything the
session keeps, shows or sends is the same, and so is what it still buffers
unless it has ended. -/
theorem onBytes_chunks {s : TcpSession} (hs : Reachable P s) (now : Instant)
    (chunks : List Bytes) :
    let split := chunks.foldl (fun s c => s.onBytes P c now) s
    let whole := s.onBytes P chunks.flatten now
    { split with in_ := [] } = { whole with in_ := [] } ∧
      (whole.state ≠ .closed → split.in_ = whole.in_) := by
  intro split whole
  have hsame : (consumer P now).Same (apart split) (apart whole) := by
    rw [apart_foldl_onBytes, apart_onBytes]
    exact Consumer.feed_flatten ((settled_apart now s).mpr hs.parsed) chunks
  refine ⟨hsame.1, fun hopen => hsame.2 ?_⟩
  rw [hsame.1]
  exact decide_eq_false hopen

/-- A responder that awaits device 1. -/
def sampleResponder : TcpSession :=
  TcpSession.respond Primitives.checksum {} (Vector.replicate 16 7) 0 none (Vector.replicate 16 2)
    (Vector.replicate 16 1) (Vector.replicate 16 3) 0 (Vector.replicate 32 6)

/-- Message 1 of device 1, cut inside its length prefix and inside its body. -/
def sampleChunks : List Bytes :=
  let message := (TcpSession.initiate Primitives.checksum {} (Vector.replicate 16 7) 0 none
    (Vector.replicate 16 1) (Vector.replicate 16 2) (Vector.replicate 16 3) 0
    (Vector.replicate 32 4) (Vector.replicate 16 5)).out
  [message.take 1, (message.drop 1).take 20, message.drop 21]

/-- The pieces of message 1 establish the responder as the whole does. -/
theorem onBytes_chunks_message1 :
    let split := sampleChunks.foldl (fun s c => s.onBytes Primitives.checksum c 0) sampleResponder
    let whole := sampleResponder.onBytes Primitives.checksum sampleChunks.flatten 0
    whole.state = .established ∧ { split with in_ := [] } = { whole with in_ := [] } ∧
      split.in_ = whole.in_ := by
  have hreach : Reachable Primitives.checksum sampleResponder := .respond _ _ _ _ _ _ _ _ _ []
  have hsame := onBytes_chunks hreach 0 sampleChunks
  have hestablished :
      (sampleResponder.onBytes Primitives.checksum sampleChunks.flatten 0).state =
        .established := by
    decide +kernel
  exact ⟨hestablished, hsame.1, hsame.2 fun h => TcpState.noConfusion (hestablished.symm.trans h)⟩

end TcpSession

end UConnect
