/-
  Session/PacketKeys.lean --- the key and the number of every packet of a
  session.

  `out` is only ever added to here, so the packets a session queued stand in it
  in the order of their numbers.  `Numbered` says what packet `i` is: sealed
  under the send key rekeyed as often as its number and the shift say, with `i`
  for its nonce.  `Opens` is the same of the packets a session decrypted.  The
  shift may be set as long as no packet was sealed or opened.
-/
import UConnect.Session.KeySchedule

set_option autoImplicit false

namespace UConnect

open UConnect.Foundation UConnect.Crypto UConnect.Wire

variable {P : Primitives}

/-! ## Packets that leave

Sealing is the only way a packet comes to be queued, and each takes the next
number. -/

/-- Packet `i` is sealed at number `i`, under the key of its generation. -/
def Numbered (P : Primitives) (k : SymKey) (s : Session) : Prop :=
  ∀ (i : Nat) (hi : i < s.out.length), ∃ type ad plain, PacketType type ad ∧
    (s.out.get ⟨i, hi⟩).data =
      packet type s.connId i (genuine P k s.cfg.rekeyShift i ad plain)

/-- The sending side of a session, as long as fewer than 2^64 packets were
queued. -/
def Sending (P : Primitives) (k : SymKey) (s : Session) : Prop :=
  s.out.length < 2 ^ 64 → SendSchedule P k s ∧ Numbered P k s

/-- A packet is queued whole, or nothing is and the counter stands. -/
theorem Session.sealPacket_cases (s : Session) (type : MsgType) (ad plain : Bytes)
    (capacity : Nat) :
    ((s.sealPacket P type ad plain capacity).1 = false ∧
        (s.sealPacket P type ad plain capacity).2.out = s.out ∧
        (s.sealPacket P type ad plain capacity).2.sendCounter = s.sendCounter) ∨
      ((s.sealPacket P type ad plain capacity).1 = true ∧
        (s.sealPacket P type ad plain capacity).2.sendCounter = incr 64 s.sendCounter ∧
        (s.sealPacket P type ad plain capacity).2.out = s.out ++ [⟨s.path,
          packet type s.connId s.sendCounter
            ((s.advanceSendKeys P s.sendCounter).sendCs.encryptAt P s.sendCounter ad plain)⟩]) := by
  unfold Session.sealPacket
  dsimp only
  split
  · exact .inl ⟨rfl, rfl, rfl⟩
  · rename_i hfit
    rw [Bool.not_eq_true', Bool.not_eq_false] at hfit
    obtain ⟨hheader, hbody⟩ := Transport.encode_ok hfit
    obtain ⟨-, himage⟩ := Header.encode_ok hheader
    refine .inr ⟨rfl, rfl, ?_⟩
    dsimp only
    rw [hbody, himage]
    rfl

theorem Session.sealPacket_fixed (s : Session) (type : MsgType) (ad plain : Bytes)
    (capacity : Nat) :
    (s.sealPacket P type ad plain capacity).2.connId = s.connId ∧
      (s.sealPacket P type ad plain capacity).2.cfg = s.cfg := by
  unfold Session.sealPacket
  dsimp only
  split <;> exact ⟨rfl, rfl⟩

theorem Numbered.congr {k : SymKey} {s s' : Session} (h : Numbered P k s)
    (hside : s'.sendSide = s.sendSide) : Numbered P k s' := by
  unfold Session.sendSide at hside
  simp only [Prod.mk.injEq] at hside
  obtain ⟨hcfg, hconn, -, hout, -⟩ := hside
  unfold Numbered
  rw [hcfg, hconn, hout]
  exact h

/-- One more packet, at the number that is next. -/
theorem Numbered.sealPacket {k : SymKey} {s : Session} (hsched : SendSchedule P k s)
    (h : Numbered P k s) (hopen : s.state = .established) {type : MsgType} {ad : Bytes}
    (htype : PacketType type ad) (plain : Bytes) (capacity : Nat) :
    Numbered P k (s.sealPacket P type ad plain capacity).2 := by
  obtain ⟨hconn, hcfg⟩ := s.sealPacket_fixed (P := P) type ad plain capacity
  unfold Numbered
  rw [hconn, hcfg]
  rcases s.sealPacket_cases (P := P) type ad plain capacity with
    ⟨-, hout, -⟩ | ⟨-, -, hout⟩
  · rw [hout]
    exact h
  · rw [hout, hsched.advanceSendKeys hopen, Session.generation_eq hsched.shift, hsched.counter]
    intro i hi
    rw [List.length_append, List.length_singleton] at hi
    rcases Nat.lt_or_eq_of_le (Nat.le_of_lt_succ hi) with hlt | rfl
    · obtain ⟨type', ad', plain', htype', hdata⟩ := h i hlt
      refine ⟨type', ad', plain', htype', ?_⟩
      rw [List.get_eq_getElem, List.getElem_append_left hlt]
      exact hdata
    · refine ⟨type, ad, plain, htype, ?_⟩
      rw [List.get_eq_getElem, List.getElem_concat_length rfl]
      rfl

theorem Sending.congr {k : SymKey} {s s' : Session} (h : Sending P k s)
    (hside : s'.sendSide = s.sendSide)
    (hkey : s'.state = .established → s.state = .established ∧ s'.sendCs = s.sendCs) :
    Sending P k s' := by
  have hout : s'.out = s.out := congrArg (fun t => t.2.2.2.1) hside
  intro hroom
  rw [hout] at hroom
  obtain ⟨hsched, hnum⟩ := h hroom
  exact ⟨hsched.congr hside hkey, hnum.congr hside⟩

theorem Sending.step {k : SymKey} {s : Session} (h : Sending P k s) (op : Session.Op) :
    Sending P k (s.step P op) := by
  refine Session.step_sending (I := Sending P k) (fun _ _ hs => hs.congr) ?_ h op
  intro s type ad plain capacity hs hopen htype hroom
  have hmono := (s.sealPacket_out (P := P) type ad plain capacity).1
  obtain ⟨hsched, hnum⟩ := hs (Nat.lt_of_le_of_lt hmono hroom)
  exact ⟨hsched.sealPacket hopen type ad plain capacity hroom,
    hnum.sealPacket hsched hopen htype plain capacity⟩

/-- Before the first packet the shift can be set, and nothing else moves. -/
theorem Session.configureRekeyShift_cases (s : Session) (shift : Nat) :
    s.configureRekeyShift shift = (false, s) ∨
      s.state = .established ∧ s.sendCounter = 0 ∧ s.received = 0 ∧ (7 ≤ shift ∧ shift ≤ 63) ∧
        s.configureRekeyShift shift = (true, { s with cfg := { s.cfg with rekeyShift := shift } }) := by
  unfold Session.configureRekeyShift
  split
  · exact Or.inl rfl
  · rename_i hfree
    simp only [Bool.or_eq_true, decide_eq_true_eq, not_or, Decidable.not_not, Nat.not_lt] at hfree
    obtain ⟨⟨⟨⟨hstate, hsent⟩, hreceived⟩, hlo⟩, hhi⟩ := hfree
    exact Or.inr ⟨hstate, hsent, hreceived, ⟨hlo, hhi⟩, rfl⟩

theorem Sending.configureRekeyShift {k : SymKey} {s : Session} (h : Sending P k s)
    (shift : Nat) : Sending P k (s.configureRekeyShift shift).2 := by
  rcases s.configureRekeyShift_cases shift with heq | ⟨-, hsent, -, ⟨-, hhi⟩, heq⟩
  · rw [heq]
    exact h
  · rw [heq]
    intro hroom
    obtain ⟨hsched, -⟩ := h hroom
    have hnone : s.out = [] := by
      rw [← List.length_eq_zero_iff, ← hsched.counter]
      exact hsent
    have hgen : s.sendGen = 0 := by
      have hle := hsched.gen
      rw [hsent, Session.generation_eq hsched.shift, Nat.zero_div] at hle
      exact Nat.le_zero.mp hle
    refine ⟨⟨hhi, hsched.counter, ?_, hsched.key, fun e he => ?_⟩, ?_⟩
    · show s.sendGen ≤ _
      rw [hgen]
      exact Nat.zero_le _
    · -- what was sealed and did not fit was sealed at number 0, of generation 0 anyway
      obtain ⟨hle, hcipher⟩ := hsched.seals e he
      have hzero : e.nonce = 0 := Nat.le_zero.mp (hsent ▸ hle)
      refine ⟨hle, ?_⟩
      rw [hcipher, hzero]
      unfold genuine
      rw [Nat.zero_div, Nat.zero_div]
    · intro i hi
      have hi : i < s.out.length := hi
      rw [hnone] at hi
      cases hi

theorem Sending.call {k : SymKey} {s : Session} (h : Sending P k s) (c : Session.Call) :
    Sending P k (s.call P c) := by
  cases c with
  | op op => exact h.step op
  | configureRekeyShift shift => exact h.configureRekeyShift shift

theorem sending_create (cfg : SessionConfig) (path : Endpoint) (send recv : SymKey)
    (connId : ConnId) (now : Instant) (hhi : cfg.rekeyShift ≤ 63) :
    Sending P send (.create cfg path send recv connId now) := by
  intro _
  refine ⟨⟨hhi, rfl, Nat.zero_le _, fun _ => rfl, fun e he => ?_⟩, fun i hi => ?_⟩
  · cases he
  · cases hi

/-- A send that fails emits nothing and uses no number; one that succeeds
reports the number it used. -/
theorem Session.send_cases (s : Session) (payload : Bytes) (now : Instant) :
    ((s.send P payload now).1 = none ∧ (s.send P payload now).2.out = s.out ∧
        (s.send P payload now).2.sendCounter = s.sendCounter) ∨
      ((s.send P payload now).1 = some s.sendCounter ∧
        (s.send P payload now).2.out.length = s.out.length + 1 ∧
        (s.send P payload now).2.sendCounter = incr 64 s.sendCounter) := by
  unfold Session.send
  split
  · exact .inl ⟨rfl, rfl, rfl⟩
  unfold Session.sendPacket
  split
  · exact .inl ⟨rfl, rfl, rfl⟩
  rcases s.sealPacket_cases (P := P) MsgType.transport [] payload (kMaxDatagram + 64) with
    ⟨hok, hout, hcounter⟩ | ⟨hok, hcounter, hout⟩
  · simp only [hok, Bool.not_false, if_true]
    exact .inl ⟨trivial, hout, hcounter⟩
  · simp only [hok, Bool.not_true, Bool.false_eq_true, if_false]
    refine .inr ⟨trivial, ?_, hcounter⟩
    rw [hout, List.length_append, List.length_singleton]

/-! ## Packets that are taken

Opening moves the receiver's generation to that of the packet, and never back. -/

/-- The receiving side of a session: it follows the schedule, and every packet
was opened under the key of its generation. -/
structure Receiving (P : Primitives) (k : SymKey) (s : Session) : Prop where
  schedule : Schedule P k s
  opens : ∀ o ∈ s.opened, o.key = (generationKey P k (o.nonce / 2 ^ s.cfg.rekeyShift)).key

theorem Session.opened_openPacket (s : Session) (c : Nat) (ad ct : Bytes) (now : Instant) :
    (s.openPacket P c ad ct now).2.opened = s.opened ∨
      ∃ use jumped plain fresh, s.selectKey P (s.generation c) now = some (use, jumped) ∧
        (s.openPacket P c ad ct now).2.opened =
          s.opened ++ [⟨use.key, c, ad, plain, ct, fresh⟩] := by
  unfold Session.openPacket
  dsimp only
  cases hsel : s.selectKey P (s.generation c) now with
  | none => exact .inl rfl
  | some p =>
      obtain ⟨use, jumped⟩ := p
      have hspend : (s.spendFarJump (s.generation c) jumped now).opened = s.opened := by
        unfold Session.spendFarJump
        split <;> rfl
      dsimp only
      cases use.decryptAt P c ad ct with
      | none => exact .inl hspend
      | some plain =>
          refine .inr ⟨use, jumped, plain,
            ((s.spendFarJump (s.generation c) jumped now).replay.accept c).1, rfl, ?_⟩
          dsimp only
          rw [← hspend]
          split
          · rfl
          · cases jumped <;> rfl

theorem Receiving.openPacket {k : SymKey} {s : Session} (h : Receiving P k s)
    (hopen : s.state = .established) (c : Nat) (ad ct : Bytes) (now : Instant) :
    Receiving P k (s.openPacket P c ad ct now).2 := by
  have hcfg : (s.openPacket P c ad ct now).2.cfg = s.cfg :=
    congrArg Prod.fst (s.sendSide_openPacket (P := P) c ad ct now).1
  refine ⟨(h.schedule.openPacket hopen c ad ct now).1, ?_⟩
  rw [hcfg]
  rcases s.opened_openPacket (P := P) c ad ct now with
    hsame | ⟨use, jumped, plain, fresh, hsel, hmore⟩
  · rw [hsame]
    exact h.opens
  · rw [hmore]
    intro o ho
    rcases List.mem_append.mp ho with ho | ho
    · exact h.opens o ho
    · rw [List.mem_singleton.mp ho, (h.schedule.selectKey hopen hsel).1,
        Session.generation_eq h.schedule.shift.2]

theorem Receiving.deaf {k : SymKey} {s s' : Session} (h : Receiving P k s) (hs : s.Deaf s') :
    Receiving P k s' := by
  have hside := hs.side
  unfold Session.recvSide at hside
  simp only [Prod.mk.injEq] at hside
  obtain ⟨hcfg, -, -, -, hopened⟩ := hside
  refine ⟨h.schedule.deaf hs, ?_⟩
  rw [hcfg, hopened]
  exact h.opens

theorem Receiving.step {k : SymKey} {s : Session} (h : Receiving P k s) (op : Session.Op) :
    Receiving P k (s.step P op) :=
  Session.step_receiving (I := Receiving P k) (fun _ _ hs => hs.deaf)
    (fun _ c ad ct now hs hopen => hs.openPacket hopen c ad ct now) h op

/-- As long as no packet was opened, the shift can be set. -/
theorem Receiving.configureRekeyShift {k : SymKey} {s : Session} (h : Receiving P k s)
    (hnone : s.opened = []) (shift : Nat) : Receiving P k (s.configureRekeyShift shift).2 := by
  rcases s.configureRekeyShift_cases shift with heq | ⟨-, -, -, hrange, heq⟩
  · rw [heq]
    exact h
  · rw [heq]
    have hunseen : s.replay.seen = false := by
      cases hseen : s.replay.seen with
      | false => rfl
      | true =>
          have hmem := h.schedule.tracks.mem hseen
          rw [Session.accepted, hnone] at hmem
          cases hmem
    have hgen : s.recvGen = 0 := by
      rw [h.schedule.gen, h.schedule.unseen hunseen, Session.generation_eq h.schedule.shift.2,
        Nat.zero_div]
    refine ⟨⟨hrange, h.schedule.conn, h.schedule.tracks, h.schedule.unseen, ?_, h.schedule.key,
      h.schedule.prev⟩, ?_⟩
    · show s.recvGen = _
      rw [hgen, h.schedule.unseen hunseen, Session.generation_eq hrange.2, Nat.zero_div]
    · intro o ho
      rw [show s.opened = [] from hnone] at ho
      cases ho

theorem receiving_create (cfg : SessionConfig) (path : Endpoint) (send recv : SymKey)
    (connId : ConnId) (now : Instant) (hrange : 7 ≤ cfg.rekeyShift ∧ cfg.rekeyShift ≤ 63)
    (hconn : connId < 2 ^ 32) : Receiving P recv (.create cfg path send recv connId now) := by
  refine ⟨schedule_create cfg path send recv connId now hrange.1 hrange.2 hconn, ?_⟩
  intro o ho
  cases ho

end UConnect
