/-
  Session/FarJumps.lean --- what a rejected datagram costs.

  A datagram's counter is read before anything is verified, and decides which
  key to try and how far to derive it.  A packet that is then not taken leaves
  the session as it was, except for the time of the next far jump; and far
  jumps, spent whether or not the packet verifies, keep their interval, which
  bounds the derivations that forged counters can ask for.
-/
import UConnect.Foundation.Run
import UConnect.Foundation.Spacing
import UConnect.Session.KeySchedule

set_option autoImplicit false

namespace UConnect

open UConnect.Foundation UConnect.Crypto UConnect.Wire

namespace Session

variable (P : Primitives)

/-- The packet a datagram holds for this session, and the associated data of its
type. -/
def addressed (s : Session) (dgram : Bytes) : Option (Bytes × Transport) :=
  if s.state = .closed then none
  else
    match Header.decode { rest := dgram } with
    | (none, _) => none
    | (some h, r) =>
        if h.type = MsgType.close then
          (Transport.decode r).bind fun m =>
            if m.connId ≠ s.connId then none else some ([MsgType.close], m)
        else if h.type ≠ MsgType.transport then none
        else
          (Transport.decode r).bind fun t =>
            if t.connId ≠ s.connId then none else some ([], t)

/-- Does `on_datagram` take the packet? -/
def accepts (s : Session) (dgram : Bytes) (now : Instant) : Bool :=
  match s.addressed dgram with
  | none => false
  | some (ad, m) => (s.openPacket P m.counter ad m.ciphertext now).1.isSome

/-- The rekey steps `open_packet` spends to reach the key of generation `g`. -/
def reach (s : Session) (g : Nat) (now : Instant) : Nat :=
  match s.selectKey P g now with
  | some (_, true) => g - s.recvGen
  | _ => 0

/-- The rekey steps a datagram makes `on_datagram` spend before it is verified. -/
def derivations (s : Session) (dgram : Bytes) (now : Instant) : Nat :=
  match s.addressed dgram with
  | none => 0
  | some (_, m) => s.reach P (s.generation m.counter) now

end Session

variable {P : Primitives}

/-! ## What a rejected datagram leaves

A packet that is not taken has at most spent the far jump; the key it was tried
under is thrown away with the derivation that led to it. -/

/-- `on_datagram` by the packet it finds. -/
theorem Session.onDatagram_cases (s : Session) (src : Endpoint) (dgram : Bytes) (now : Instant) :
    (s.addressed dgram = none ∧ s.onDatagram P src dgram now = s) ∨
      (∃ m, s.addressed dgram = some ([MsgType.close], m) ∧
        s.onDatagram P src dgram now = s.onClose P m now) ∨
      ∃ t, s.addressed dgram = some ([], t) ∧
        s.onDatagram P src dgram now = s.onTransport P src t now := by
  unfold Session.addressed Session.onDatagram
  rcases Decidable.em (s.state = .closed) with hclosed | hopen
  · rw [if_pos hclosed, if_pos hclosed]
    exact Or.inl ⟨rfl, rfl⟩
  rw [if_neg hopen, if_neg hopen]
  rcases Header.decode { rest := dgram } with ⟨- | h, r⟩
  · exact Or.inl ⟨rfl, rfl⟩
  simp only
  cases Transport.decode r with
  | none =>
      simp only [Option.bind_none, ite_self]
      exact Or.inl ⟨trivial, trivial⟩
  | some m =>
      simp only [Option.bind_some]
      rcases Decidable.em (m.connId ≠ s.connId) with hother | hours
      · simp only [if_pos hother, ite_self]
        exact Or.inl ⟨trivial, trivial⟩
      simp only [if_neg hours]
      rcases Decidable.em (h.type = MsgType.close) with hclose | hne
      · rw [if_pos hclose, if_pos hclose]
        exact Or.inr (Or.inl ⟨m, rfl, rfl⟩)
      rw [if_neg hne, if_neg hne]
      rcases Decidable.em (h.type ≠ MsgType.transport) with hneither | htrans
      · rw [if_pos hneither, if_pos hneither]
        exact Or.inl ⟨rfl, rfl⟩
      · rw [if_neg htrans, if_neg htrans]
        exact Or.inr (Or.inr ⟨m, rfl, rfl⟩)

theorem Session.spendFarJump_eq (s : Session) (g : Nat) (jumped : Bool) (now : Instant) :
    ∃ next, s.spendFarJump g jumped now = { s with nextFarJump := next } := by
  unfold Session.spendFarJump
  split
  · exact ⟨_, rfl⟩
  · exact ⟨s.nextFarJump, rfl⟩

/-- A packet that does not open moves the next far jump at most; `opened` is the
history of what was decrypted. -/
theorem Session.openPacket_refused {s : Session} {c : Nat} {ad ct : Bytes} {now : Instant}
    (h : (s.openPacket P c ad ct now).1 = none) :
    ∃ next history, (s.openPacket P c ad ct now).2 =
      { s with nextFarJump := next, opened := history } := by
  unfold Session.openPacket at h ⊢
  dsimp only at h ⊢
  split at h
  · exact ⟨s.nextFarJump, s.opened, rfl⟩
  · rename_i use jumped _
    obtain ⟨next, hnext⟩ := s.spendFarJump_eq (s.generation c) jumped now
    rw [hnext] at h ⊢
    split at h
    · exact ⟨next, s.opened, rfl⟩
    · cases hfresh : (s.replay.accept c).1 with
      | false =>
          -- authentic but stale: the window is as it was
          simp only [Bool.not_false, if_true, ReplayWindow.accept_false hfresh]
          exact ⟨next, _, rfl⟩
      | true =>
          simp only [hfresh, Bool.not_true, Bool.false_eq_true, if_false] at h
          cases h

theorem Session.onClose_refused {s : Session} {m : Transport} {now : Instant}
    (h : (s.openPacket P m.counter [MsgType.close] m.ciphertext now).1 = none) :
    s.onClose P m now = (s.openPacket P m.counter [MsgType.close] m.ciphertext now).2 := by
  unfold Session.onClose
  split
  · rename_i s' hs'
    rw [hs']
  · rename_i plain s' hs'
    rw [hs'] at h
    cases h

theorem Session.onTransport_refused {s : Session} {src : Endpoint} {t : Transport} {now : Instant}
    (h : (s.openPacket P t.counter [] t.ciphertext now).1 = none) :
    s.onTransport P src t now = (s.openPacket P t.counter [] t.ciphertext now).2 := by
  unfold Session.onTransport
  split
  · rename_i s' hs'
    rw [hs']
  · rename_i plain s' hs'
    rw [hs'] at h
    cases h

theorem Session.onDatagram_rejected {s : Session} {dgram : Bytes} {now : Instant}
    (h : s.accepts P dgram now = false) (src : Endpoint) :
    ∃ next history, s.onDatagram P src dgram now =
      { s with nextFarJump := next, opened := history } := by
  unfold Session.accepts at h
  rcases s.onDatagram_cases (P := P) src dgram now with
    ⟨-, hsame⟩ | ⟨m, haddr, hclose⟩ | ⟨t, haddr, htrans⟩
  · rw [hsame]
    exact ⟨s.nextFarJump, s.opened, rfl⟩
  · rw [haddr] at h
    have hnone := Option.isNone_iff_eq_none.mp (Option.isSome_eq_false_iff.mp h)
    rw [hclose, Session.onClose_refused hnone]
    exact Session.openPacket_refused hnone
  · rw [haddr] at h
    have hnone := Option.isNone_iff_eq_none.mp (Option.isSome_eq_false_iff.mp h)
    rw [htrans, Session.onTransport_refused hnone]
    exact Session.openPacket_refused hnone

/-! ## The gate before a derivation

The limiter of the library, with the field `next_far_jump_` for its state. -/

/-- The limits a session derives keys under. -/
def Session.gate (s : Session) : Gate where
  near := s.cfg.maxGenerationsAhead
  far := s.cfg.maxGenerationsFar
  interval := s.cfg.farJumpInterval
  next := s.nextFarJump

theorem Session.reach_admits (s : Session) (g : Nat) (now : Instant) :
    s.gate.Admits (s.reach P g now) now := by
  unfold Session.reach Session.selectKey
  split
  · rename_i hsel
    split at hsel
    · cases hsel
    split at hsel
    · cases hsel
    split at hsel
    · rename_i _ _ hg
      exact hg.2
    · cases hsel
  · exact Or.inl (Nat.zero_le _)

theorem Session.gate_spendFarJump (s : Session) (g : Nat) (jumped : Bool) (now : Instant) :
    (s.spendFarJump g jumped now).gate =
      s.gate.spend (if jumped then g - s.recvGen else 0) now := by
  unfold Session.spendFarJump Gate.spend
  cases jumped with
  | false =>
      simp only [Bool.false_eq_true, false_and, if_false]
      rfl
  | true =>
      rcases Nat.lt_or_ge s.cfg.maxGenerationsAhead (g - s.recvGen) with hfar | hnear
      · rw [if_pos ⟨rfl, hfar⟩, if_pos (by simpa [Session.gate] using hfar)]
        rfl
      · rw [if_neg (by omega), if_neg (by simpa [Session.gate] using hnear)]

/-- Opening a packet takes its derivation through the gate, whatever comes of
it. -/
theorem Session.gate_openPacket (s : Session) (c : Nat) (ad ct : Bytes) (now : Instant) :
    (s.openPacket P c ad ct now).2.gate = s.gate.spend (s.reach P (s.generation c) now) now := by
  unfold Session.openPacket Session.reach
  simp only
  cases hsel : s.selectKey P (s.generation c) now with
  | none =>
      unfold Gate.spend
      rw [if_neg (Nat.not_lt_zero _)]
  | some p =>
      obtain ⟨use, jumped⟩ := p
      have hspent := s.gate_spendFarJump (s.generation c) jumped now
      have hcost : (match some (use, jumped) with
          | some (_, true) => s.generation c - s.recvGen
          | _ => 0) = if jumped then s.generation c - s.recvGen else 0 := by
        cases jumped <;> rfl
      rw [hcost, ← hspent]
      simp only
      generalize s.spendFarJump (s.generation c) jumped now = t
      cases use.decryptAt P c ad ct with
      | none => rfl
      | some plain =>
          simp only
          cases (t.replay.accept c).1 with
          | false => rfl
          | true => cases jumped <;> rfl

theorem Session.gate_closeWithCause (s : Session) (cause : CloseCause) (reason : Nat) :
    (s.closeWithCause cause reason).gate = s.gate := by
  unfold Session.closeWithCause
  split <;> rfl

theorem Session.gate_deliver (s : Session) (src : Endpoint) (plain : Bytes) (now : Instant) :
    (s.deliver src plain now).gate = s.gate := by
  unfold Session.deliver
  simp only
  split <;> split <;> rfl

/-- A datagram takes the derivation it asks for through the gate. -/
theorem Session.gate_onDatagram (s : Session) (src : Endpoint) (dgram : Bytes) (now : Instant) :
    s.gate.Admits (s.derivations P dgram now) now ∧
      (s.onDatagram P src dgram now).gate =
        s.gate.spend (s.derivations P dgram now) now := by
  unfold Session.derivations
  rcases s.onDatagram_cases (P := P) src dgram now with
    ⟨hnone, hsame⟩ | ⟨m, haddr, hclose⟩ | ⟨t, haddr, htrans⟩
  · rw [hnone, hsame]
    exact ⟨Or.inl (Nat.zero_le _), (if_neg (Nat.not_lt_zero _)).symm⟩
  · rw [haddr, hclose]
    refine ⟨s.reach_admits _ now, ?_⟩
    have hgate := s.gate_openPacket (P := P) m.counter [MsgType.close] m.ciphertext now
    rw [← hgate]
    unfold Session.onClose
    split
    · rename_i s' hs'
      rw [hs']
    · rename_i plain s' hs'
      rw [hs', Session.gate_closeWithCause]
      rfl
  · rw [haddr, htrans]
    refine ⟨s.reach_admits _ now, ?_⟩
    have hgate := s.gate_openPacket (P := P) t.counter [] t.ciphertext now
    rw [← hgate]
    unfold Session.onTransport
    split
    · rename_i s' hs'
      rw [hs']
    · rename_i plain s' hs'
      rw [hs', Session.gate_deliver]

theorem Session.gate_sealPacket (s : Session) (type : MsgType) (ad plain : Bytes)
    (capacity : Nat) : (s.sealPacket P type ad plain capacity).2.gate = s.gate := by
  unfold Session.sealPacket
  simp only
  split <;> rfl

theorem Session.gate_sendPacket (s : Session) (payload : Bytes) (now : Instant) :
    (s.sendPacket P payload now).2.gate = s.gate := by
  have hseal := s.gate_sealPacket (P := P) MsgType.transport [] payload (kMaxDatagram + 64)
  unfold Session.sendPacket
  split
  · rfl
  · simp only
    split
    · exact hseal
    · exact hseal

/-- Calls other than `on_datagram` leave the gate alone. -/
theorem Session.gate_call (s : Session) {c : Session.Call}
    (hc : ∀ src dgram now, c ≠ .op (.onDatagram src dgram now)) : (s.call P c).gate = s.gate := by
  cases c with
  | configureRekeyShift shift =>
      show (s.configureRekeyShift shift).2.gate = s.gate
      unfold Session.configureRekeyShift
      split <;> rfl
  | op op =>
      cases op with
      | send payload now =>
          show (s.send P payload now).2.gate = s.gate
          unfold Session.send
          split
          · rfl
          · exact s.gate_sendPacket payload now
      | onDatagram src dgram now => exact absurd rfl (hc src dgram now)
      | onTimeout now =>
          show (s.onTimeout P now).gate = s.gate
          unfold Session.onTimeout
          split
          · rfl
          split
          · exact s.gate_closeWithCause _ _
          split
          · exact s.gate_sendPacket [] now
          · rfl
      | setPath path now => rfl
      | close => exact s.gate_closeWithCause _ _
      | closeWithNotice reason =>
          show (s.closeWithNotice P reason).gate = s.gate
          unfold Session.closeWithNotice Session.close
          split
          · rfl
          · have hcopy : ∀ t : Session, (t.queueClose P reason).gate = t.gate :=
              fun t => t.gate_sealPacket _ _ _ _
            rw [Session.gate_closeWithCause]
            exact (hcopy _).trans ((hcopy _).trans (hcopy s))

/-! ## Runs

All attempts of a run, with their times and their costs, pass the gate one after
another. -/

namespace Session

/-- A datagram that was received: when, the rekey steps it was given, and
whether it was taken. -/
structure Attempt where
  now : Instant
  steps : Nat
  accepted : Bool
  deriving DecidableEq

/-- Was the attempt made in vain, between two times? -/
def Attempt.wasted (lo hi : Instant) (x : Attempt) : Bool :=
  !x.accepted && decide (lo ≤ x.now) && decide (x.now ≤ hi)

/-- The attempts a call makes. -/
def tries (P : Primitives) (s : Session) : Session.Call → List Attempt
  | .op (.onDatagram _ dgram now) => [⟨now, s.derivations P dgram now, s.accepts P dgram now⟩]
  | _ => []

/-- The datagrams a run received, in order. -/
def attempts (P : Primitives) (s : Session) (calls : List Session.Call) : List Attempt :=
  trace (tries P) (call P) s calls

/-- The attempts of a run pass the session's gate. -/
theorem passes_attempts (s : Session) (calls : List Session.Call) :
    s.gate.Passes Attempt.now Attempt.steps (s.attempts P calls) := by
  induction calls generalizing s with
  | nil => trivial
  | cons c calls ih =>
      have hrest := ih (s.call P c)
      rcases Classical.em (∃ src dgram now, c = .op (.onDatagram src dgram now)) with
        ⟨src, dgram, now, rfl⟩ | hother
      · obtain ⟨hadmits, hgate⟩ := s.gate_onDatagram (P := P) src dgram now
        refine ⟨hadmits, ?_⟩
        show (s.gate.spend (s.derivations P dgram now) now).Passes Attempt.now Attempt.steps _
        rw [← hgate]
        exact hrest
      · have hnone : s.tries P c = [] := by
          unfold tries
          split
          · exact absurd ⟨_, _, _, rfl⟩ hother
          · rfl
        rw [s.gate_call (fun src dgram now heq => hother ⟨src, dgram, now, heq⟩)] at hrest
        unfold attempts trace
        rw [hnone]
        exact hrest

theorem attempts_times (s : Session) (calls : List Session.Call) :
    ((s.attempts P calls).map Attempt.now).Sublist (calls.filterMap Call.time?) := by
  induction calls generalizing s with
  | nil => exact List.Sublist.slnil
  | cons c calls ih =>
      have hrest := ih (s.call P c)
      have hcall : ((s.tries P c).map Attempt.now).Sublist c.time?.toList := by
        unfold tries
        split
        · exact List.Sublist.refl _
        · exact List.nil_sublist _
      have hsplit : (c :: calls).filterMap Call.time? =
          c.time?.toList ++ calls.filterMap Call.time? := by
        rw [List.filterMap_cons]
        cases c.time? <;> rfl
      rw [hsplit]
      unfold attempts trace
      rw [List.map_append]
      exact hcall.append hrest

/-- What a rejected datagram costs.  It leaves the session as it was, but for
the time of the next far jump (`opened` is a history variable).  Along a run,
derivations of more than `maxGenerationsAhead` steps for packets that were not
taken are an interval apart, and what such packets cost between two times is
bounded by their number and by the intervals that begin there. -/
theorem rejected_datagrams_cost_far_jumps (P : Primitives) (s : Session) :
    (∀ src dgram now, s.accepts P dgram now = false → ∃ next history,
      s.onDatagram P src dgram now = { s with nextFarJump := next, opened := history }) ∧
    ∀ calls : List Session.Call, (calls.filterMap Call.time?).Pairwise (· ≤ ·) →
      ((s.attempts P calls).filter fun x =>
          !x.accepted && decide (s.cfg.maxGenerationsAhead < x.steps)).Pairwise
        (fun x y => x.now + s.cfg.farJumpInterval ≤ y.now) ∧
      ∀ lo hi, ∃ n : Nat, (n = 0 ∨ (n - 1 : Int) * s.cfg.farJumpInterval ≤ hi - lo) ∧
        (((s.attempts P calls).filter (Attempt.wasted lo hi)).map Attempt.steps).sum ≤
          ((s.attempts P calls).filter (Attempt.wasted lo hi)).length * s.cfg.maxGenerationsAhead +
            n * s.cfg.maxGenerationsFar := by
  refine ⟨fun src dgram now h => onDatagram_rejected h src, ?_⟩
  intro calls htimes
  have hpasses := s.passes_attempts (P := P) calls
  have hmono := htimes.sublist (s.attempts_times (P := P) calls)
  constructor
  · refine ((hpasses.pairwise hmono).filter _).imp_of_mem ?_
    intro x y hx hy hxy
    have hx := (List.mem_filter.mp hx).2
    have hy := (List.mem_filter.mp hy).2
    simp only [Bool.and_eq_true, decide_eq_true_eq] at hx hy
    exact hxy hx.2 hy.2
  · intro lo hi
    refine hpasses.budget hmono List.filter_sublist ?_ ?_
    · intro x hx
      have hx := (List.mem_filter.mp hx).2
      simp only [Attempt.wasted, Bool.and_eq_true, decide_eq_true_eq] at hx
      exact hx.1.2
    · intro x hx
      have hx := (List.mem_filter.mp hx).2
      simp only [Attempt.wasted, Bool.and_eq_true, decide_eq_true_eq] at hx
      exact hx.2

/-- A packet that claims a counter three generations ahead, and is not even
sealed. -/
def sampleForgery : Bytes := [0x40, 1, 0, 0, 0, 0, 0, 0, 0, 0, 0, 9, 0, 0, 0, 0, 0, 3, 0, 0]

/-- Three of them: the second comes before the next far jump is due. -/
def sampleForgeries : List Session.Call :=
  [.op (.onDatagram {} sampleForgery 1), .op (.onDatagram {} sampleForgery 2),
    .op (.onDatagram {} sampleForgery (1 + milliseconds 250))]

theorem rejected_datagrams_cost_far_jumps_sample :
    (Channel.sample.b.attempts Primitives.checksum sampleForgeries).map Attempt.steps =
        [3, 0, 3] ∧
      ∃ n : Nat, (n = 0 ∨ (n - 1 : Int) * milliseconds 250 ≤ milliseconds 250) ∧
        (((Channel.sample.b.attempts Primitives.checksum sampleForgeries).filter
          (Attempt.wasted 1 (1 + milliseconds 250))).map Attempt.steps).sum ≤ 3 * 2 + n * 4096 := by
  have hrun := (rejected_datagrams_cost_far_jumps Primitives.checksum Channel.sample.b).2
    sampleForgeries (by decide +kernel)
  obtain ⟨n, hn, hsum⟩ := hrun.2 1 (1 + milliseconds 250)
  have hlen : ((Channel.sample.b.attempts Primitives.checksum sampleForgeries).filter
      (Attempt.wasted 1 (1 + milliseconds 250))).length = 3 := by
    decide +kernel
  rw [hlen] at hsum
  refine ⟨by decide +kernel, n, ?_, hsum⟩
  rw [add_sub_cancel_left] at hn
  exact hn

end Session

end UConnect
