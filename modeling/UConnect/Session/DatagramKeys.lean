/-
  Session/DatagramKeys.lean --- the two ends of a session derive the same
  datagram keys.

  `datagram_keys` walks the exported secret forward, past the epochs that are
  skipped and past the one it derives, and forgets what it walked over.  Each
  end walks in its own steps.  `Rooted` is what makes them meet: while a session
  is established, its secret is the handshake's ratcheted as often as its epoch
  counter says, so the keys of an epoch depend on the handshake and the epoch
  alone.
-/
import UConnect.Session.TcpEvents
import UConnect.Session.TcpHandshake

set_option autoImplicit false

namespace UConnect

open UConnect.Foundation UConnect.Crypto

/-! ## The keys of an epoch

Walking the exported secret, as a function of the handshake's secret and the
epoch alone. -/

/-- One step of the secret the datagram keys come from. -/
def ratchet (P : Primitives) (root : Hash) : Hash :=
  copyInto 32 (hkdf P root.toList [] (ascii "uconnect:v3:udp:next") kHashLen)

/-- The keys of `epoch` on the side with the given role, from the secret of that
epoch. -/
def epochKeys (P : Primitives) (initiator : Bool) (root : Hash) (epoch : Nat) : DatagramKeys :=
  let derive (label : String) (len : Nat) : Bytes :=
    hkdf P root.toList (beBytes 4 epoch) (ascii label) len
  let i2r : SymKey := copyInto 32 (derive "uconnect:v2:udp:i2r" 32)
  let r2i : SymKey := copyInto 32 (derive "uconnect:v2:udp:r2i" 32)
  { send := if initiator then i2r else r2i
    recv := if initiator then r2i else i2r
    probe := copyInto 32 (derive "uconnect:v2:udp:probe" 32)
    connId := beVal (derive "uconnect:v2:udp:conn" 4) }

/-- A connection id has 32 bits. -/
theorem epochKeys_connId_lt (P : Primitives) (initiator : Bool) (root : Hash) (epoch : Nat) :
    (epochKeys P initiator root epoch).connId < 2 ^ 32 := by
  have hlen := length_hkdfExpand_le P (hmacBlake2s P (beBytes 4 epoch) root.toList).toList
    (ascii "uconnect:v2:udp:conn") 4 4 [] 1
  calc (epochKeys P initiator root epoch).connId
      < 256 ^ (hkdf P root.toList (beBytes 4 epoch) (ascii "uconnect:v2:udp:conn") 4).length :=
        beVal_lt _
    _ ≤ 256 ^ 4 := Nat.pow_le_pow_right (by decide) hlen

/-- Keys with which two sides hear each other. -/
structure DatagramKeys.Mirrors (k k' : DatagramKeys) : Prop where
  send : k.send = k'.recv
  recv : k.recv = k'.send
  probe : k.probe = k'.probe
  connId : k.connId = k'.connId

theorem epochKeys_mirrors (P : Primitives) (root : Hash) (epoch : Nat) :
    (epochKeys P true root epoch).Mirrors (epochKeys P false root epoch) := by
  constructor
  · simp only [epochKeys, if_true, Bool.false_eq_true, if_false]
  · simp only [epochKeys, if_true, Bool.false_eq_true, if_false]
  · simp only [epochKeys]
  · simp only [epochKeys]

namespace TcpSession

variable {P : Primitives}

/-- Ratcheting the exported secret touches nothing else. -/
theorem iterate_advanceExported (s : TcpSession) (n : Nat) :
    (advanceExported P)^[n] s =
      { s with
        exported := (ratchet P)^[n] s.exported
        nextDatagramEpoch := s.nextDatagramEpoch + n } := by
  induction n with
  | zero => rfl
  | succ n ih =>
      rw [Function.iterate_succ_apply', Function.iterate_succ_apply', ih]
      rfl

/-- The calls that `datagram_keys` refuses. -/
def Refuses (s : TcpSession) (epoch : Nat) : Prop :=
  s.state ≠ .established ∨ epoch < s.nextDatagramEpoch ∨
    s.nextDatagramEpoch + maxDatagramEpochSkip < epoch

theorem datagramKeys_of_refuses {s : TcpSession} {epoch : Nat} (h : s.Refuses epoch) :
    s.datagramKeys P epoch = (none, s) := by
  unfold datagramKeys
  rw [if_pos]
  simp only [Bool.or_eq_true, decide_eq_true_eq]
  rcases h with h | h | h
  · exact Or.inl (Or.inl h)
  · exact Or.inl (Or.inr h)
  · exact Or.inr (by omega)

theorem datagramKeys_of_not_refuses {s : TcpSession} {epoch : Nat} (h : ¬ s.Refuses epoch) :
    s.datagramKeys P epoch =
      (some (epochKeys P s.initiator
          ((ratchet P)^[epoch - s.nextDatagramEpoch] s.exported) epoch),
        { s with
          exported := (ratchet P)^[epoch - s.nextDatagramEpoch + 1] s.exported
          nextDatagramEpoch := epoch + 1 }) := by
  have hle : s.nextDatagramEpoch ≤ epoch := by
    rw [← Nat.not_lt]
    exact fun hlt => h (Or.inr (Or.inl hlt))
  have hnext : s.nextDatagramEpoch + (epoch - s.nextDatagramEpoch) = epoch := by omega
  unfold datagramKeys
  rw [if_neg, iterate_advanceExported, hnext, Function.iterate_succ_apply']
  · rfl
  · simp only [Bool.or_eq_true, decide_eq_true_eq, not_or]
    simp only [Refuses, not_or] at h
    exact ⟨⟨h.1, h.2.1⟩, by omega⟩

theorem nextDatagramEpoch_datagramKeys {s : TcpSession} {epoch : Nat} (h : ¬ s.Refuses epoch) :
    s.nextDatagramEpoch ≤ epoch ∧ (s.datagramKeys P epoch).2.nextDatagramEpoch = epoch + 1 := by
  rw [datagramKeys_of_not_refuses h]
  simp only [Refuses, not_or, Nat.not_lt] at h
  exact ⟨h.2.1, rfl⟩

/-- A call is refused in these cases and no others, and then changes nothing. -/
theorem datagramKeys_refused_iff (s : TcpSession) (epoch : Nat) :
    ((s.datagramKeys P epoch).1 = none ↔ s.Refuses epoch) ∧
      ((s.datagramKeys P epoch).1 = none → (s.datagramKeys P epoch).2 = s) := by
  rcases Classical.em (s.Refuses epoch) with h | h
  · rw [datagramKeys_of_refuses h]
    exact ⟨iff_of_true rfl h, fun _ => rfl⟩
  · rw [datagramKeys_of_not_refuses h]
    refine ⟨iff_of_false ?_ h, ?_⟩
    · exact Option.some_ne_none _
    · exact fun hnone => absurd hnone (Option.some_ne_none _)

/-! ## The secret along a run

Which calls leave the secret alone, and that the one that moves it moves its
epoch with it. -/

/-- What a call other than `datagram_keys` leaves of the secret of a session
past its handshake. -/
structure Holds (s s' : TcpSession) : Prop where
  initiator : s'.initiator = s.initiator
  next : s'.nextDatagramEpoch = s.nextDatagramEpoch
  settled : s.state ≠ .handshaking → s'.state ≠ .handshaking
  live : s'.state = .established → s.state = .established ∧ s'.exported = s.exported

theorem Holds.refl (s : TcpSession) : Holds s s := ⟨rfl, rfl, fun h => h, fun h => ⟨h, rfl⟩⟩

theorem Holds.trans {s s' s'' : TcpSession} (h : Holds s s') (h' : Holds s' s'') :
    Holds s s'' where
  initiator := h'.initiator.trans h.initiator
  next := h'.next.trans h.next
  settled hs := h'.settled (h.settled hs)
  live hs := by
    obtain ⟨hmid, hexp'⟩ := h'.live hs
    obtain ⟨hest, hexp⟩ := h.live hmid
    exact ⟨hest, hexp'.trans hexp⟩

theorem Holds.of_eq {s s' : TcpSession} (hinit : s'.initiator = s.initiator)
    (hnext : s'.nextDatagramEpoch = s.nextDatagramEpoch) (hstate : s'.state = s.state)
    (hexp : s'.exported = s.exported) : Holds s s' where
  initiator := hinit
  next := hnext
  settled := by
    rw [hstate]
    exact fun h => h
  live := by
    rw [hstate]
    exact fun h => ⟨h, hexp⟩

theorem Holds.of_closed {s s' : TcpSession} (hinit : s'.initiator = s.initiator)
    (hnext : s'.nextDatagramEpoch = s.nextDatagramEpoch) (hclosed : s'.state = .closed) :
    Holds s s' where
  initiator := hinit
  next := hnext
  settled _ := by
    rw [hclosed]
    exact TcpState.noConfusion
  live h := by
    rw [hclosed] at h
    cases h

theorem holds_fail (s : TcpSession) (cause : CloseCause) : Holds s (s.fail cause) := by
  unfold fail
  split
  · exact .refl s
  · exact .of_closed rfl rfl rfl

theorem holds_handleRecord (s : TcpSession) (plain : Bytes) : Holds s (s.handleRecord plain) := by
  unfold handleRecord
  split
  · exact .refl s
  · split
    · exact .refl s
    · split
      · exact .of_closed rfl rfl rfl
      · split
        · exact .refl s
        · exact .of_eq rfl rfl rfl rfl

theorem holds_act {s : TcpSession} (hs : s.state ≠ .handshaking) {buf rest : Bytes} {f : Frame}
    (h : s.nextFrame buf = some (f, rest)) (now : Instant) : Holds s (s.act P f now) := by
  cases f with
  | hello => exact .refl s
  | bad => exact holds_fail s .local
  | message body => exact absurd ((s.nextFrame_kind h).1 body rfl) hs
  | record body =>
      show Holds s (s.onRecord P body now)
      unfold onRecord
      split
      · exact holds_fail s .local
      · refine Holds.trans ?_ (holds_handleRecord _ _)
        exact .of_eq rfl rfl rfl rfl

theorem holds_onBytes {s : TcpSession} (hs : s.state ≠ .handshaking) (bytes : Bytes)
    (now : Instant) : Holds s (s.onBytes P bytes now) := by
  have hstep : ∀ (t : TcpSession) (b : Bytes) (f : Frame) (r : Bytes) (now : Instant),
      t.state ≠ .closed → Holds s t → t.nextFrame b = some (f, r) →
      Holds s ((t.act P f now).withIn []) := by
    intro t b f r now _ ht hnext
    have hact := holds_act (P := P) (ht.settled hs) hnext now
    exact (ht.trans hact).trans (.of_eq rfl rfl rfl rfl)
  have hinv := @onBytes_invariant P (fun t _ => Holds s t) (fun _ _ _ _ ht => ht) hstep s bytes
    [] now (.of_eq rfl rfl rfl rfl)
  exact hinv.trans (.of_eq rfl rfl rfl rfl)

/-- Every call but `datagram_keys` holds the secret, or closes the session. -/
theorem holds_step {s : TcpSession} (hs : s.state ≠ .handshaking) {op : Op}
    (hop : ∀ epoch, op ≠ .datagramKeys epoch) : Holds s (s.step P op) := by
  cases op with
  | onBytes bytes now => exact holds_onBytes hs bytes now
  | onEof =>
      show Holds s s.onEof
      unfold onEof
      split
      · exact holds_fail s .timedOut
      · exact .refl s
  | onTimeout now =>
      show Holds s (s.onTimeout P now)
      unfold onTimeout
      split
      · exact absurd (by assumption) hs
      · split
        · exact holds_fail s .timedOut
        · split
          · exact .of_eq rfl rfl rfl rfl
          · exact .refl s
      · exact .refl s
  | send kind body now =>
      show Holds s (s.send P kind body now).2
      unfold send
      split
      · exact .refl s
      · exact .of_eq rfl rfl rfl rfl
  | close reason =>
      show Holds s (s.close P reason)
      unfold close
      split
      · exact .refl s
      · simp only
        split
        · exact .of_closed rfl rfl rfl
        · exact .of_closed rfl rfl rfl
  | keepalive now =>
      show Holds s (s.keepalive P now)
      unfold keepalive
      split
      · exact .refl s
      · exact .of_eq rfl rfl rfl rfl
  | takeOutput => exact .of_eq rfl rfl rfl rfl
  | pollEvent =>
      show Holds s s.pollEvent.2
      unfold pollEvent
      split
      · exact .refl s
      · exact .of_eq rfl rfl rfl rfl
  | datagramKeys epoch => exact absurd rfl (hop epoch)

/-- A session past its handshake, whose secret is `root` ratcheted as often as
its epoch counter says. -/
structure Rooted (P : Primitives) (initiator : Bool) (root : Hash) (s : TcpSession) : Prop where
  initiator : s.initiator = initiator
  settled : s.state ≠ .handshaking
  secret : s.state = .established → s.exported = (ratchet P)^[s.nextDatagramEpoch] root

variable {initiator : Bool} {root : Hash} {s : TcpSession}

theorem Rooted.holds {s' : TcpSession} (h : Rooted P initiator root s) (hs : Holds s s') :
    Rooted P initiator root s' where
  initiator := hs.initiator.trans h.initiator
  settled := hs.settled h.settled
  secret hest := by
    obtain ⟨hlive, hexp⟩ := hs.live hest
    rw [hexp, hs.next]
    exact h.secret hlive

/-- What is derived comes from the root and the epoch alone. -/
theorem Rooted.datagramKeys (h : Rooted P initiator root s) {epoch : Nat}
    (hok : ¬ s.Refuses epoch) :
    (s.datagramKeys P epoch).1 = some (epochKeys P initiator ((ratchet P)^[epoch] root) epoch) ∧
      Rooted P initiator root (s.datagramKeys P epoch).2 := by
  have hest : s.state = .established := by
    by_contra hne
    exact hok (Or.inl hne)
  have hle := (nextDatagramEpoch_datagramKeys (P := P) hok).1
  have hwalk : ∀ n, (ratchet P)^[n] s.exported = (ratchet P)^[n + s.nextDatagramEpoch] root := by
    intro n
    rw [h.secret hest, Function.iterate_add_apply]
  rw [datagramKeys_of_not_refuses hok, hwalk, hwalk, Nat.sub_add_cancel hle, Nat.add_right_comm,
    Nat.sub_add_cancel hle]
  refine ⟨?_, h.initiator, h.settled, fun _ => rfl⟩
  rw [h.initiator]

theorem Rooted.step (h : Rooted P initiator root s) (op : Op) :
    Rooted P initiator root (s.step P op) := by
  rcases Classical.em (∃ epoch, op = .datagramKeys epoch) with ⟨epoch, rfl⟩ | hop
  · show Rooted P initiator root (s.datagramKeys P epoch).2
    rcases Classical.em (s.Refuses epoch) with href | href
    · rw [datagramKeys_of_refuses href]
      exact h
    · exact (h.datagramKeys href).2
  · exact h.holds (holds_step h.settled (fun epoch heq => hop ⟨epoch, heq⟩))

/-! ## What a run derives

The epochs for which a run has handed out keys, in order. -/

/-- The epoch and the keys a call yields. -/
def yields (P : Primitives) (s : TcpSession) : Op → List (Nat × DatagramKeys)
  | .datagramKeys epoch => ((s.datagramKeys P epoch).1.map fun keys => (epoch, keys)).toList
  | _ => []

/-- The epochs a run derives, in order, with their keys. -/
def derived (P : Primitives) (s : TcpSession) (ops : List Op) : List (Nat × DatagramKeys) :=
  trace (yields P) (step P) s ops

theorem yields_cases {op : Op} {x : Nat × DatagramKeys} (hx : x ∈ s.yields P op) :
    op = .datagramKeys x.1 ∧ ¬ s.Refuses x.1 ∧ (s.datagramKeys P x.1).1 = some x.2 := by
  cases op with
  | datagramKeys epoch =>
      obtain ⟨keys, hkeys, rfl⟩ := Option.map_eq_some_iff.mp (Option.mem_toList.mp hx)
      refine ⟨rfl, fun href => ?_, hkeys⟩
      rw [datagramKeys_of_refuses href] at hkeys
      cases hkeys
  | _ => cases hx

theorem nextDatagramEpoch_step (h : s.state ≠ .handshaking) (op : Op) :
    s.nextDatagramEpoch ≤ (s.step P op).nextDatagramEpoch := by
  rcases Classical.em (∃ epoch, op = .datagramKeys epoch) with ⟨epoch, rfl⟩ | hop
  · show s.nextDatagramEpoch ≤ (s.datagramKeys P epoch).2.nextDatagramEpoch
    rcases Classical.em (s.Refuses epoch) with href | href
    · rw [datagramKeys_of_refuses href]
    · obtain ⟨hle, hnext⟩ := nextDatagramEpoch_datagramKeys (P := P) href
      omega
  · exact Nat.le_of_eq (holds_step h (fun epoch heq => hop ⟨epoch, heq⟩)).next.symm

theorem Rooted.nextDatagramEpoch_run (h : Rooted P initiator root s) (ops : List Op) :
    s.nextDatagramEpoch ≤ (run (TcpSession.step P) s ops).nextDatagramEpoch := by
  refine (run_invariant (I := fun t => Rooted P initiator root t ∧
    s.nextDatagramEpoch ≤ t.nextDatagramEpoch) ?_ ⟨h, Nat.le_refl _⟩ ops).2
  rintro t op ⟨ht, hle⟩
  exact ⟨ht.step op, Nat.le_trans hle (nextDatagramEpoch_step ht.settled op)⟩

/-- Every epoch a run derives has the keys of the root. -/
theorem Rooted.keys_of_derived (h : Rooted P initiator root s) (ops : List Op) :
    ∀ x ∈ s.derived P ops, x.2 = epochKeys P initiator ((ratchet P)^[x.1] root) x.1 := by
  refine trace_forall (I := Rooted P initiator root) (fun t op ht => ht.step op) ?_ h ops
  intro t op ht x hx
  obtain ⟨-, hok, hkeys⟩ := yields_cases hx
  rw [(ht.datagramKeys hok).1] at hkeys
  exact (Option.some.inj hkeys).symm

/-- Epochs are derived in increasing order. -/
theorem Rooted.derived_increasing (h : Rooted P initiator root s) (ops : List Op) :
    (s.derived P ops).Pairwise (·.1 < ·.1) := by
  refine trace_increasing (I := Rooted P initiator root) Prod.fst nextDatagramEpoch
    (fun t op ht => ht.step op) (fun t op ht => nextDatagramEpoch_step ht.settled op) ?_ ?_ h ops
  · intro t op _ x hx
    obtain ⟨rfl, hok, -⟩ := yields_cases hx
    show t.nextDatagramEpoch ≤ x.1 ∧ x.1 < (t.datagramKeys P x.1).2.nextDatagramEpoch
    obtain ⟨hle, hnext⟩ := nextDatagramEpoch_datagramKeys (P := P) hok
    omega
  · intro t op _
    cases op with
    | datagramKeys epoch =>
        show (((t.datagramKeys P epoch).1.map fun keys => (epoch, keys)).toList).Pairwise _
        cases (t.datagramKeys P epoch).1 with
        | none => exact .nil
        | some keys => exact List.pairwise_singleton _ _
    | _ => exact .nil

/-- Epochs of 32 bits take the counter no further than one past the last of
them. -/
theorem Rooted.nextDatagramEpoch_le (h : Rooted P initiator root s)
    (hnext : s.nextDatagramEpoch ≤ 2 ^ 32) {ops : List Op}
    (hops : ∀ epoch, .datagramKeys epoch ∈ ops → epoch < 2 ^ 32) :
    (run (TcpSession.step P) s ops).nextDatagramEpoch ≤ 2 ^ 32 := by
  have hall : AllSteps (fun _ op => ∀ epoch, op = .datagramKeys epoch → epoch < 2 ^ 32)
      (TcpSession.step P) s ops :=
    allSteps_of_forall (by rintro op hop epoch rfl; exact hops epoch hop) s
  have hrun := run_invariant_of_allSteps
    (I := fun t => Rooted P initiator root t ∧ t.nextDatagramEpoch ≤ 2 ^ 32) ?_ ⟨h, hnext⟩ ops hall
  · exact hrun.2
  · rintro t op hop ⟨ht, hle⟩
    refine ⟨ht.step op, ?_⟩
    rcases Classical.em (∃ epoch, op = .datagramKeys epoch) with ⟨epoch, rfl⟩ | hother
    · have hlt := hop epoch rfl
      show (t.datagramKeys P epoch).2.nextDatagramEpoch ≤ 2 ^ 32
      rcases Classical.em (t.Refuses epoch) with href | href
      · rw [datagramKeys_of_refuses href]
        exact hle
      · rw [(nextDatagramEpoch_datagramKeys href).2]
        exact hlt
    · rw [(holds_step ht.settled (fun epoch heq => hother ⟨epoch, heq⟩)).next]
      exact hle

/-! ## The two ends

Both ends start from one secret, so they derive the same keys for whatever
epochs they both derive. -/

/-- A session that just finished its handshake is rooted in the secret exported
there. -/
theorem rooted_of_finish {t : TcpSession} {split : Split} {now : Instant}
    (h : s.withIn [] = (t.finish split now).withIn []) (hrole : t.initiator = initiator)
    (hnext : t.nextDatagramEpoch = 0) :
    Rooted P initiator split.exported s ∧ s.nextDatagramEpoch = 0 := by
  have hzero : s.nextDatagramEpoch = 0 :=
    (congrArg TcpSession.nextDatagramEpoch h).trans hnext
  have hstate : s.state = .established := congrArg TcpSession.state h
  refine ⟨⟨(congrArg TcpSession.initiator h).trans hrole, ?_, fun _ => ?_⟩, hzero⟩
  · rw [hstate]
    exact TcpState.noConfusion
  · rw [hzero]
    exact congrArg TcpSession.exported h

/-- Datagram key agreement.  Behind a completed handshake, whatever each end is
called on for: an epoch derived on both ends has mirrored keys, and each end
derives its epochs in increasing order.  In any session a call is refused where
`Refuses` says, and then changes nothing; 32-bit epochs leave the counter far
from its own width. -/
theorem datagram_keys_agree (hP : P.aead.Lawful) {ri rr : SecretKey} {shared : PublicKey}
    (hi : P.x25519 ri (P.publicOf rr) = some shared)
    (hr : P.x25519 rr (P.publicOf ri) = some shared) {i r : Args} (hmatch : Args.Matching i r)
    (cfgI cfgR : TcpSessionConfig) (nowI nowR : Instant) (padding : Vector UInt8 16)
    (hellos : List AttemptNonce) (toR toI : List (Bytes × Instant))
    (hR : stream toR = (i.initiate P cfgI nowI ri padding).takeOutput.1)
    (hI : stream toI = helloFrames hellos ++
      ((r.respond P cfgR nowR rr).deliver P toR).takeOutput.1) (opsI opsR : List Op) :
    let a := (i.initiate P cfgI nowI ri padding).takeOutput.2.deliver P toI
    let b := (r.respond P cfgR nowR rr).deliver P toR
    (∀ epoch keys keys', (epoch, keys) ∈ a.derived P opsI → (epoch, keys') ∈ b.derived P opsR →
      keys.Mirrors keys') ∧
    (a.derived P opsI).Pairwise (·.1 < ·.1) ∧ (b.derived P opsR).Pairwise (·.1 < ·.1) ∧
    (∀ (s : TcpSession) (epoch : Nat),
      ((s.datagramKeys P epoch).1 = none ↔ s.Refuses epoch) ∧
      ((s.datagramKeys P epoch).1 = none → (s.datagramKeys P epoch).2 = s)) ∧
    ((∀ epoch, .datagramKeys epoch ∈ opsI ++ opsR → epoch < 2 ^ 32) →
      (run (TcpSession.step P) a opsI).nextDatagramEpoch ≤ 2 ^ 32 ∧
        (run (TcpSession.step P) b opsR).nextDatagramEpoch ≤ 2 ^ 32) := by
  intro a b
  obtain ⟨si, sr, hmirror, ⟨nowI', ha⟩, nowR', out, hb⟩ :=
    established_of_matching cfgI cfgR nowI nowR hmatch hP hi hr hR hI
  obtain ⟨m, hs, hwrite⟩ := i.noise_writeMessage (P := P) ri padding
  have htaken := (takeOutput_initiate i cfgI nowI hwrite).2
  obtain ⟨hrootA, hnextA⟩ := rooted_of_finish (P := P) ha
    (congrArg TcpSession.initiator htaken) (congrArg TcpSession.nextDatagramEpoch htaken)
  obtain ⟨hrootB, hnextB⟩ := rooted_of_finish (P := P) hb rfl rfl
  refine ⟨?_, hrootA.derived_increasing opsI, hrootB.derived_increasing opsR,
    datagramKeys_refused_iff, ?_⟩
  · intro epoch keys keys' hkeys hkeys'
    have hA := hrootA.keys_of_derived opsI _ hkeys
    have hB := hrootB.keys_of_derived opsR _ hkeys'
    simp only at hA hB
    rw [hA, hB, hmirror.exported]
    exact epochKeys_mirrors P _ epoch
  · intro hops
    constructor
    · refine hrootA.nextDatagramEpoch_le (by omega) fun epoch he => hops epoch ?_
      exact List.mem_append_left _ he
    · refine hrootB.nextDatagramEpoch_le (by omega) fun epoch he => hops epoch ?_
      exact List.mem_append_right _ he

/-- Device 1 derives epoch 0, then 3, and is refused 2; device 2 goes to 3 at
once. -/
theorem datagram_keys_agree_sample :
    ((sampleEnd sampleListener).derived Primitives.checksum
      [.datagramKeys 0, .datagramKeys 3, .datagramKeys 2]).map Prod.fst = [0, 3] ∧
    ∀ keys keys', (3, keys) ∈ (sampleEnd sampleListener).derived Primitives.checksum
        [.datagramKeys 0, .datagramKeys 3, .datagramKeys 2] →
      (3, keys') ∈ (sampleAnswerer sampleListener).derived Primitives.checksum
        [.datagramKeys 3] → keys.Mirrors keys' := by
  have hi : Primitives.checksum.x25519 (Vector.replicate 32 4)
      (Primitives.checksum.publicOf (Vector.replicate 32 6)) = some (Vector.replicate 32 2) := by
    decide +kernel
  have hr : Primitives.checksum.x25519 (Vector.replicate 32 6)
      (Primitives.checksum.publicOf (Vector.replicate 32 4)) = some (Vector.replicate 32 2) := by
    decide +kernel
  have hagree := datagram_keys_agree Aead.checksum_lawful hi hr
    (by decide : Args.Matching sampleDialer sampleListener) {} {} 0 0 (Vector.replicate 16 8)
    [Vector.replicate 16 0] sampleToR (sampleToI sampleListener) stream_sampleToR
    (stream_sampleToI _) [.datagramKeys 0, .datagramKeys 3, .datagramKeys 2] [.datagramKeys 3]
  exact ⟨by decide +kernel, hagree.1 3⟩

end TcpSession

end UConnect
