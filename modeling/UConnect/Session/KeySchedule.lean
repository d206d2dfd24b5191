/-
  Session/KeySchedule.lean --- the receiver always holds the key it needs.

  The packet counter decides the key generation.  `Schedule` ties the receiver's
  three pieces of state together: its generation is that of the replay window's
  mark, its key is the initial one rekeyed that often, and the retained key is
  the generation before.  The window is narrower than a generation, so a packet
  it would still take is of one of these two generations or ahead of both; hence
  a genuine packet is never refused for want of a key.

  Closing a session erases its keys, so the key part speaks of open sessions.
-/
import UConnect.Session.Channel

set_option autoImplicit false

namespace UConnect

open UConnect.Foundation UConnect.Crypto UConnect.Wire

variable {P : Primitives}

/-- The cipher of generation `g` under an initial key. -/
def generationKey (P : Primitives) (k : SymKey) (g : Nat) : CipherState :=
  (CipherState.rekey P)^[g] (.ofKey k)

theorem generationKey_add (P : Primitives) (k : SymKey) (g n : Nat) :
    (CipherState.rekey P)^[n] (generationKey P k g) = generationKey P k (n + g) := by
  unfold generationKey
  rw [← Function.iterate_add_apply]

/-- The receiver's keys follow its replay window. -/
structure Schedule (P : Primitives) (k : SymKey) (s : Session) : Prop where
  shift : 7 ≤ s.cfg.rekeyShift ∧ s.cfg.rekeyShift ≤ 63
  conn : s.connId < 256 ^ 4
  tracks : s.replay.Tracks s.accepted
  unseen : s.replay.seen = false → s.replay.highest = 0
  gen : s.recvGen = s.generation s.replay.highest
  key : s.state = .established → s.recvCs = generationKey P k s.recvGen
  prev : s.state = .established → s.recvGen > 0 →
    s.recvCsPrev = generationKey P k (s.recvGen - 1)

namespace Session

theorem generation_eq {s : Session} (h : s.cfg.rekeyShift ≤ 63) (c : Nat) :
    s.generation c = c / 2 ^ s.cfg.rekeyShift := by
  unfold generation
  rw [if_neg (by omega)]

theorem generation_mono {s : Session} {c c' : Nat} (h : c ≤ c') :
    s.generation c ≤ s.generation c' := by
  unfold generation
  split
  · exact Nat.le_refl _
  · exact Nat.div_le_div_right h

/-- A window's width behind is at most one generation behind. -/
theorem generation_of_window {s : Session} (hlo : 7 ≤ s.cfg.rekeyShift)
    (hhi : s.cfg.rekeyShift ≤ 63) {c hi : Nat} (hc : hi < c + ReplayWindow.kWidth) :
    s.generation hi ≤ s.generation c + 1 := by
  rw [generation_eq hhi, generation_eq hhi]
  have hwide : 64 ≤ 2 ^ s.cfg.rekeyShift := by
    calc 64 ≤ 2 ^ 7 := by decide
      _ ≤ 2 ^ s.cfg.rekeyShift := Nat.pow_le_pow_right (by decide) hlo
  have hpos : 0 < 2 ^ s.cfg.rekeyShift := by omega
  have hle : hi ≤ c + 2 ^ s.cfg.rekeyShift := by
    have : ReplayWindow.kWidth = 64 := rfl
    omega
  calc hi / 2 ^ s.cfg.rekeyShift ≤ (c + 2 ^ s.cfg.rekeyShift) / 2 ^ s.cfg.rekeyShift :=
        Nat.div_le_div_right hle
    _ = c / 2 ^ s.cfg.rekeyShift + 1 := Nat.add_div_right c hpos

end Session

/-! ## Opening a packet keeps the schedule

The only place where receiving keys move.  A packet that fails its tag leaves
them alone, so there is one case to look at: a packet that was accepted. -/

/-- Where the mark stands after a counter was taken. -/
theorem ReplayWindow.highest_accept {w : ReplayWindow} {c : Nat}
    (h : (w.accept c).1 = true) :
    (w.accept c).2.seen = true ∧
      ((w.accept c).2.highest = c ∧ (w.seen = true → w.highest ≤ c) ∨
        (w.seen = true ∧ c ≤ w.highest ∧ (w.accept c).2.highest = w.highest)) := by
  obtain ⟨hs, he⟩ | ⟨hs, hgt, he⟩ | ⟨hs, hle, hold, he⟩ | ⟨hs, hle, hlt, hbit, he⟩ |
    ⟨hs, hle, hlt, hbit, he⟩ := accept_cases w c
  · rw [he]
    exact ⟨rfl, .inl ⟨rfl, fun h => by rw [hs] at h; cases h⟩⟩
  · rw [he]
    exact ⟨hs, .inl ⟨rfl, fun _ => Nat.le_of_lt hgt⟩⟩
  · rw [he] at h; cases h
  · rw [he] at h; cases h
  · rw [he]
    exact ⟨hs, .inr ⟨hs, hle, rfl⟩⟩

/-- Everything key selection can yield, and the key it then is. -/
theorem Schedule.selectKey {k : SymKey} {s : Session} (h : Schedule P k s)
    (hopen : s.state = .established) {g : Nat} {now : Instant} {use : CipherState}
    {jumped : Bool} (hsel : s.selectKey P g now = some (use, jumped)) :
    use = generationKey P k g ∧
      ((jumped = false ∧ (g = s.recvGen ∨ g + 1 = s.recvGen)) ∨
        (jumped = true ∧ s.recvGen < g)) := by
  unfold Session.selectKey at hsel
  split at hsel
  · rename_i hg
    obtain ⟨rfl, rfl⟩ := Prod.mk.inj (Option.some.inj hsel)
    exact ⟨by rw [h.key hopen, hg], .inl ⟨rfl, .inl hg⟩⟩
  split at hsel
  · rename_i _ hg
    obtain ⟨rfl, rfl⟩ := Prod.mk.inj (Option.some.inj hsel)
    refine ⟨?_, .inl ⟨rfl, .inr hg.2⟩⟩
    rw [h.prev hopen hg.1]
    congr 1
    omega
  split at hsel
  · rename_i _ _ hg
    obtain ⟨rfl, rfl⟩ := Prod.mk.inj (Option.some.inj hsel)
    refine ⟨?_, .inr ⟨rfl, hg.1⟩⟩
    rw [h.key hopen, generationKey_add]
    congr 1
    omega
  · cases hsel

/-- What the schedule reads of a session; keys may also have been erased by a
close. -/
theorem Schedule.congr {k : SymKey} {s s' : Session} (h : Schedule P k s)
    (hcfg : s'.cfg = s.cfg) (hconn : s'.connId = s.connId) (hreplay : s'.replay = s.replay)
    (hacc : s'.accepted = s.accepted) (hgen : s'.recvGen = s.recvGen)
    (hkeys : s'.state = .established →
      s.state = .established ∧ s'.recvCs = s.recvCs ∧ s'.recvCsPrev = s.recvCsPrev) :
    Schedule P k s' where
  shift := by rw [hcfg]; exact h.shift
  conn := by rw [hconn]; exact h.conn
  tracks := by rw [hreplay, hacc]; exact h.tracks
  unseen := by rw [hreplay]; exact h.unseen
  gen := by
    rw [hgen, hreplay, h.gen]
    unfold Session.generation
    rw [hcfg]
  key hopen := by
    obtain ⟨hold, hcs, -⟩ := hkeys hopen
    rw [hcs, hgen]
    exact h.key hold
  prev hopen := by
    obtain ⟨hold, -, hprev⟩ := hkeys hopen
    rw [hprev, hgen]
    exact h.prev hold

/-- Taking a counter of generation `g`: with `g` current or just behind nothing
moves, with `g` ahead the receiver moves there. -/
theorem Schedule.take {k : SymKey} {s s' : Session} (h : Schedule P k s) {c : Nat}
    (hopen : s.state = .established) (hcfg : s'.cfg = s.cfg) (hconn : s'.connId = s.connId)
    (hacc : s'.accepted = s.accepted ++ [c]) (hfresh : (s.replay.accept c).1 = true)
    (hreplay : s'.replay = (s.replay.accept c).2)
    (hcase : ((s.generation c = s.recvGen ∨ s.generation c + 1 = s.recvGen) ∧
        s'.recvGen = s.recvGen ∧ s'.recvCs = s.recvCs ∧ s'.recvCsPrev = s.recvCsPrev) ∨
      (s.recvGen < s.generation c ∧ s'.recvGen = s.generation c ∧
        s'.recvCs = generationKey P k (s.generation c) ∧
        s'.recvCsPrev = generationKey P k (s.generation c - 1))) :
    Schedule P k s' := by
  have hgeneration : ∀ n, s'.generation n = s.generation n := by
    intro n
    unfold Session.generation
    rw [hcfg]
  obtain ⟨hseen, hmark⟩ := ReplayWindow.highest_accept hfresh
  have htracks := h.tracks.accept c
  rw [hfresh, if_pos rfl] at htracks
  have hgen : s'.recvGen = s.generation s'.replay.highest := by
    rw [hreplay]
    rcases hmark with ⟨hhigh, hle⟩ | ⟨-, hle, hhigh⟩
    · rw [hhigh]
      rcases hcase with ⟨hg, hsame, -⟩ | ⟨-, hnew, -⟩
      · -- the mark moved up, so the packet is not a straggler
        have hup : s.recvGen ≤ s.generation c := by
          rw [h.gen]
          apply Session.generation_mono
          cases hs : s.replay.seen with
          | false => rw [h.unseen hs]; exact Nat.zero_le _
          | true => exact hle hs
        rw [hsame]
        omega
      · exact hnew
    · rw [hhigh, ← h.gen]
      have hdown : s.generation c ≤ s.recvGen := by
        rw [h.gen]
        exact Session.generation_mono hle
      rcases hcase with ⟨-, hsame, -⟩ | ⟨hlt, -⟩
      · exact hsame
      · omega
  constructor
  case shift => rw [hcfg]; exact h.shift
  case conn => rw [hconn]; exact h.conn
  case tracks =>
    rw [hreplay, hacc]
    refine htracks.of_mem_iff fun n => ?_
    simp [or_comm]
  case unseen =>
    intro hs
    rw [hreplay, hseen] at hs
    cases hs
  case gen => rw [hgeneration]; exact hgen
  case key =>
    intro _
    rcases hcase with ⟨-, hsame, hcs, -⟩ | ⟨-, hnew, hcs, -⟩
    · rw [hcs, hsame]; exact h.key hopen
    · rw [hcs, hnew]
  case prev =>
    intro _ hpos
    rcases hcase with ⟨-, hsame, -, hprev⟩ | ⟨-, hnew, -, hprev⟩
    · rw [hprev, hsame]
      rw [hsame] at hpos
      exact h.prev hopen hpos
    · rw [hprev, hnew]

/-- A refused counter leaves the window as it was. -/
theorem ReplayWindow.accept_false {w : ReplayWindow} {c : Nat} (h : (w.accept c).1 = false) :
    (w.accept c).2 = w := by
  rcases accept_cases w c with ⟨-, he⟩ | ⟨-, -, he⟩ | ⟨-, -, -, he⟩ | ⟨-, -, -, -, he⟩ |
    ⟨-, -, -, -, he⟩
  · rw [he] at h; cases h
  · rw [he] at h; cases h
  · rw [he]
  · rw [he]
  · rw [he] at h; cases h

theorem Schedule.openPacket {k : SymKey} {s : Session} (h : Schedule P k s)
    (hopen : s.state = .established) (c : Nat) (ad ct : Bytes) (now : Instant) :
    Schedule P k (s.openPacket P c ad ct now).2 ∧
      (s.openPacket P c ad ct now).2.state = .established := by
  unfold Session.openPacket
  dsimp only
  cases hsel : s.selectKey P (s.generation c) now with
  | none => exact ⟨h, hopen⟩
  | some p =>
      obtain ⟨use, jumped⟩ := p
      obtain ⟨-, hgen⟩ := h.selectKey hopen hsel
      dsimp only
      -- spending a far jump is invisible to the schedule
      obtain ⟨t, ht⟩ : ∃ t, s.spendFarJump (s.generation c) jumped now =
          { s with nextFarJump := t } := by
        unfold Session.spendFarJump
        split
        · exact ⟨_, rfl⟩
        · exact ⟨s.nextFarJump, rfl⟩
      rw [ht]
      cases hdec : use.decryptAt P c ad ct with
      | none => exact ⟨h.congr rfl rfl rfl rfl rfl fun _ => ⟨hopen, rfl, rfl⟩, hopen⟩
      | some plain =>
          dsimp only
          cases hfresh : (s.replay.accept c).1 with
          | false =>
              refine ⟨h.congr rfl rfl (ReplayWindow.accept_false hfresh) ?_ rfl
                fun _ => ⟨hopen, rfl, rfl⟩, hopen⟩
              simp [Session.accepted]
          | true =>
              have hacc : ∀ o : Opened, o.fresh = true → o.nonce = c →
                  ((s.opened ++ [o]).filter (·.fresh)).map (·.nonce) = s.accepted ++ [c] := by
                intro o ho hc
                simp [Session.accepted, ho, hc]
              rcases hgen with ⟨rfl, hg⟩ | ⟨rfl, hg⟩
              · refine ⟨h.take hopen rfl rfl (hacc _ rfl rfl) hfresh rfl
                  (.inl ⟨hg, rfl, rfl, rfl⟩), hopen⟩
              · refine ⟨h.take hopen rfl rfl (hacc _ rfl rfl) hfresh rfl
                  (.inr ⟨hg, rfl, ?_, ?_⟩), hopen⟩
                · show (CipherState.rekey P)^[s.generation c - s.recvGen] s.recvCs = _
                  rw [h.key hopen, generationKey_add]
                  congr 1
                  omega
                · show (CipherState.rekey P)^[s.generation c - s.recvGen - 1] s.recvCs = _
                  rw [h.key hopen, generationKey_add]
                  congr 1
                  omega

/-! ## Every call keeps the schedule

The other calls move neither the receiver's generation nor its window. -/

/-- The fields only receiving moves, and those that nothing moves. -/
def Session.recvSide (s : Session) :
    SessionConfig × ConnId × ReplayWindow × Nat × List Opened :=
  (s.cfg, s.connId, s.replay, s.recvGen, s.opened)

/-- Calls that leave the receiving side alone, except that a close erases its
keys. -/
structure Session.Deaf (s s' : Session) : Prop where
  side : s'.recvSide = s.recvSide
  keys : s'.state = .established →
    s.state = .established ∧ s'.recvCs = s.recvCs ∧ s'.recvCsPrev = s.recvCsPrev

theorem Session.Deaf.refl (s : Session) : s.Deaf s := ⟨rfl, fun h => ⟨h, rfl, rfl⟩⟩

theorem Session.Deaf.trans {s s' s'' : Session} (h : s.Deaf s') (h' : s'.Deaf s'') :
    s.Deaf s'' where
  side := h'.side.trans h.side
  keys hopen := by
    obtain ⟨hmid, hcs', hprev'⟩ := h'.keys hopen
    obtain ⟨hold, hcs, hprev⟩ := h.keys hmid
    exact ⟨hold, hcs'.trans hcs, hprev'.trans hprev⟩

theorem Session.deaf_closeWithCause (s : Session) (cause : CloseCause) (reason : Nat) :
    s.Deaf (s.closeWithCause cause reason) := by
  unfold Session.closeWithCause
  split
  · exact .refl s
  · exact ⟨rfl, fun hopen => by cases hopen⟩

theorem Session.deaf_sealPacket (s : Session) (type : MsgType) (ad plain : Bytes)
    (capacity : Nat) : s.Deaf (s.sealPacket P type ad plain capacity).2 := by
  unfold Session.sealPacket
  dsimp only
  split <;> exact ⟨rfl, fun h => ⟨h, rfl, rfl⟩⟩

theorem Session.deaf_sendPacket (s : Session) (payload : Bytes) (now : Instant) :
    s.Deaf (s.sendPacket P payload now).2 := by
  have hseal := s.deaf_sealPacket (P := P) MsgType.transport [] payload (kMaxDatagram + 64)
  unfold Session.sendPacket
  split
  · exact .refl s
  · dsimp only
    split
    · exact hseal
    · exact hseal.trans ⟨rfl, fun h => ⟨h, rfl, rfl⟩⟩

theorem Session.deaf_deliver (s : Session) (src : Endpoint) (plain : Bytes) (now : Instant) :
    s.Deaf (s.deliver src plain now) := by
  unfold Session.deliver
  dsimp only
  repeat' split
  all_goals exact ⟨rfl, fun h => ⟨h, rfl, rfl⟩⟩

/-- What opening a packet keeps, and depends on the receiving side alone, every
call keeps. -/
theorem Session.step_receiving {I : Session → Prop}
    (hdeaf : ∀ s s' : Session, I s → s.Deaf s' → I s')
    (hopens : ∀ (s : Session) (c : Nat) (ad ct : Bytes) (now : Instant), I s →
      s.state = .established → I (s.openPacket P c ad ct now).2)
    {s : Session} (h : I s) (op : Session.Op) : I (s.step P op) := by
  have htransport : s.state = .established → ∀ src t now, I (s.onTransport P src t now) := by
    intro hopen src t now
    have hnext := hopens s t.counter [] t.ciphertext now h hopen
    unfold Session.onTransport
    split
    · rename_i s' heq
      rw [heq] at hnext
      exact hnext
    · rename_i plain s' heq
      rw [heq] at hnext
      exact hdeaf _ _ hnext (s'.deaf_deliver src plain now)
  have hclose : s.state = .established → ∀ m now, I (s.onClose P m now) := by
    intro hopen m now
    have hnext := hopens s m.counter [MsgType.close] m.ciphertext now h hopen
    unfold Session.onClose
    split
    · rename_i s' heq
      rw [heq] at hnext
      exact hnext
    · rename_i plain s' heq
      rw [heq] at hnext
      have hheard : s'.Deaf { s' with lastRecv := now } := ⟨rfl, fun h => ⟨h, rfl, rfl⟩⟩
      exact hdeaf _ _ hnext (hheard.trans (Session.deaf_closeWithCause _ _ _))
  cases op with
  | send payload now =>
      show I (s.send P payload now).2
      unfold Session.send
      split
      · exact h
      · exact hdeaf s _ h (s.deaf_sendPacket payload now)
  | onDatagram src dgram now =>
      show I (s.onDatagram P src dgram now)
      unfold Session.onDatagram
      split
      · exact h
      · rename_i hstate
        have hopen : s.state = .established := by
          cases hs : s.state with
          | established => rfl
          | closed => exact absurd hs hstate
        repeat' split
        all_goals first
          | exact h
          | exact hclose hopen _ now
          | exact htransport hopen src _ now
  | onTimeout now =>
      show I (s.onTimeout P now)
      unfold Session.onTimeout
      split
      · exact h
      split
      · exact hdeaf s _ h (s.deaf_closeWithCause _ _)
      split
      · exact hdeaf s _ h (s.deaf_sendPacket [] now)
      · exact h
  | setPath path now => exact hdeaf s _ h ⟨rfl, fun h => ⟨h, rfl, rfl⟩⟩
  | close => exact hdeaf s _ h (s.deaf_closeWithCause _ _)
  | closeWithNotice reason =>
      show I (s.closeWithNotice P reason)
      unfold Session.closeWithNotice Session.close
      split
      · exact h
      · have hcopy : ∀ t : Session, t.Deaf (t.queueClose P reason) :=
          fun t => t.deaf_sealPacket _ _ _ _
        refine hdeaf s _ h (.trans ?_ (Session.deaf_closeWithCause _ _ _))
        exact ((hcopy s).trans (hcopy _)).trans (hcopy _)

theorem Schedule.deaf {k : SymKey} {s s' : Session} (h : Schedule P k s) (hs : s.Deaf s') :
    Schedule P k s' := by
  have hside := hs.side
  unfold Session.recvSide at hside
  simp only [Prod.mk.injEq] at hside
  obtain ⟨hcfg, hconn, hreplay, hgen, hopened⟩ := hside
  refine h.congr hcfg hconn hreplay ?_ hgen hs.keys
  rw [Session.accepted, hopened, Session.accepted]

theorem Schedule.step {k : SymKey} {s : Session} (h : Schedule P k s) (op : Session.Op) :
    Schedule P k (s.step P op) := by
  refine Session.step_receiving (I := Schedule P k) (fun _ _ hs => hs.deaf) ?_ h op
  exact fun s c ad ct now hs hopen => (hs.openPacket hopen c ad ct now).1

theorem schedule_create (cfg : SessionConfig) (path : Endpoint) (send recv : SymKey)
    (connId : ConnId) (now : Instant) (hlo : 7 ≤ cfg.rekeyShift) (hhi : cfg.rekeyShift ≤ 63)
    (hconn : connId < 2 ^ 32) :
    Schedule P recv (Session.create cfg path send recv connId now) where
  shift := ⟨hlo, hhi⟩
  conn := hconn
  tracks := ReplayWindow.tracks_init
  unseen _ := rfl
  gen := by simp [Session.generation, Session.create]
  key _ := rfl
  prev _ h := absurd h (Nat.lt_irrefl 0)

/-! ## Genuine packets

What the peer sealed under the generation its counter names.  Its counter is
within the window or ahead of it, and either way the key it needs is at hand or
can be derived. -/

/-- The peer's packet `c`: sealed under the key of its counter's generation. -/
def genuine (P : Primitives) (k : SymKey) (shift c : Nat) (ad plain : Bytes) : Bytes :=
  (generationKey P k (c / 2 ^ shift)).encryptAt P c ad plain

/-- The receiver can be asked for the key of packet `c` now: it is inside the
window, near ahead, or far ahead when a far jump is due. -/
def Reachable (s : Session) (c : Nat) (now : Instant) : Prop :=
  (s.replay.highest < c + ReplayWindow.kWidth ∧ c ≤ s.replay.highest) ∨
  (s.replay.highest < c ∧ s.generation c - s.recvGen ≤ s.cfg.maxGenerationsAhead) ∨
  (s.replay.highest < c ∧ s.generation c - s.recvGen ≤ s.cfg.maxGenerationsFar ∧
    s.nextFarJump ≤ now)

theorem Schedule.selectKey_of_reachable {k : SymKey} {s : Session} (h : Schedule P k s)
    {c : Nat} {now : Instant} (hc : Reachable s c now) :
    ∃ use jumped, s.selectKey P (s.generation c) now = some (use, jumped) := by
  unfold Session.selectKey
  split
  · exact ⟨_, _, rfl⟩
  rename_i hne
  split
  · exact ⟨_, _, rfl⟩
  rename_i hprev
  have hup : s.replay.highest < c → s.recvGen < s.generation c := by
    intro hlt
    have := Session.generation_mono (s := s) (Nat.le_of_lt hlt)
    rw [← h.gen] at this
    omega
  rcases hc with ⟨hwin, hle⟩ | ⟨hlt, hnear⟩ | ⟨hlt, hfar, hdue⟩
  · -- inside the window the generation is the current one or the one before
    have h₁ := Session.generation_of_window h.shift.1 h.shift.2 hwin
    have h₂ := Session.generation_mono (s := s) hle
    rw [← h.gen] at h₁ h₂
    omega
  · exact ⟨_, _, if_pos ⟨hup hlt, .inl hnear⟩⟩
  · exact ⟨_, _, if_pos ⟨hup hlt, .inr ⟨hfar, hdue⟩⟩⟩

/-- A genuine packet the receiver can be asked for, and has not had, opens. -/
theorem Schedule.open_genuine {k : SymKey} {s : Session} (h : Schedule P k s)
    (hP : P.aead.Lawful) (hopen : s.state = .established) {c : Nat} {now : Instant}
    (hc : Reachable s c now) (hnew : c ∉ s.accepted) (ad plain : Bytes) :
    (s.openPacket P c ad (genuine P k s.cfg.rekeyShift c ad plain) now).1 = some plain ∧
      (s.openPacket P c ad (genuine P k s.cfg.rekeyShift c ad plain) now).2.accepted =
        s.accepted ++ [c] := by
  obtain ⟨use, jumped, hsel⟩ := h.selectKey_of_reachable hc
  obtain ⟨rfl, -⟩ := h.selectKey hopen hsel
  have hdec : (generationKey P k (s.generation c)).decryptAt P c ad
      (genuine P k s.cfg.rekeyShift c ad plain) = some plain := by
    unfold CipherState.decryptAt genuine CipherState.encryptAt
    rw [if_neg (by rw [hP.length_encrypt]; omega), Session.generation_eq h.shift.2,
      hP.decrypt_encrypt]
  have hfresh : (s.replay.accept c).1 = true := by
    rw [ReplayWindow.accept_iff h.tracks]
    refine ⟨hnew, .inr ?_⟩
    rcases hc with ⟨hwin, -⟩ | ⟨hlt, -⟩ | ⟨hlt, -⟩ <;> omega
  have hspend : (s.spendFarJump (s.generation c) jumped now).replay = s.replay ∧
      (s.spendFarJump (s.generation c) jumped now).opened = s.opened := by
    unfold Session.spendFarJump
    split <;> exact ⟨rfl, rfl⟩
  unfold Session.openPacket
  dsimp only
  rw [hsel]
  dsimp only
  rw [hdec]
  dsimp only
  rw [hspend.1, hfresh]
  refine ⟨rfl, ?_⟩
  cases jumped <;> simp [Session.accepted, Session.adopt, hspend.2]

/-! ## What a sender seals is genuine

The sender's half: it steps its key by the same rule before it seals. -/

/-- The sender's key is that of its generation, which is never ahead of its
counter; the counter is the number of packets queued. -/
structure SendSchedule (P : Primitives) (k : SymKey) (s : Session) : Prop where
  shift : s.cfg.rekeyShift ≤ 63
  counter : s.sendCounter = s.out.length
  gen : s.sendGen ≤ s.generation s.sendCounter
  key : s.state = .established → s.sendCs = generationKey P k s.sendGen
  seals : ∀ e ∈ s.sealed, e.nonce ≤ s.sendCounter ∧
    e.cipher = genuine P k s.cfg.rekeyShift e.nonce e.ad e.plain

/-- The fields only sending moves, and those that nothing moves. -/
def Session.sendSide (s : Session) :
    SessionConfig × ConnId × Nat × List Outgoing × Nat × List Sealed :=
  (s.cfg, s.connId, s.sendCounter, s.out, s.sendGen, s.sealed)

theorem SendSchedule.congr {k : SymKey} {s s' : Session} (h : SendSchedule P k s)
    (hside : s'.sendSide = s.sendSide)
    (hkey : s'.state = .established → s.state = .established ∧ s'.sendCs = s.sendCs) :
    SendSchedule P k s' := by
  unfold Session.sendSide at hside
  simp only [Prod.mk.injEq] at hside
  obtain ⟨hcfg, -, hcounter, hout, hgen, hsealed⟩ := hside
  have hsame : s'.generation s.sendCounter = s.generation s.sendCounter := by
    unfold Session.generation
    rw [hcfg]
  refine ⟨by rw [hcfg]; exact h.shift, by rw [hcounter, hout]; exact h.counter,
    by rw [hgen, hcounter, hsame]; exact h.gen, fun hopen => ?_,
    by rw [hsealed, hcfg, hcounter]; exact h.seals⟩
  obtain ⟨hold, hcs⟩ := hkey hopen
  rw [hcs, hgen]
  exact h.key hold

theorem Session.sendSide_closeWithCause (s : Session) (cause : CloseCause) (reason : Nat) :
    (s.closeWithCause cause reason).sendSide = s.sendSide ∧
      ((s.closeWithCause cause reason).state = .established →
        s.state = .established ∧ (s.closeWithCause cause reason).sendCs = s.sendCs) := by
  unfold Session.closeWithCause
  split
  · exact ⟨rfl, fun h => ⟨h, rfl⟩⟩
  · exact ⟨rfl, fun h => by cases h⟩

theorem Session.sendSide_openPacket (s : Session) (c : Nat) (ad ct : Bytes) (now : Instant) :
    (s.openPacket P c ad ct now).2.sendSide = s.sendSide ∧
      (s.openPacket P c ad ct now).2.state = s.state ∧
      (s.openPacket P c ad ct now).2.sendCs = s.sendCs := by
  have hspend : ∀ g j, (s.spendFarJump g j now).sendSide = s.sendSide ∧
      (s.spendFarJump g j now).state = s.state ∧
      (s.spendFarJump g j now).sendCs = s.sendCs := by
    intro g j
    unfold Session.spendFarJump
    split <;> exact ⟨rfl, rfl, rfl⟩
  unfold Session.openPacket
  dsimp only
  split
  · exact ⟨rfl, rfl, rfl⟩
  split
  · exact hspend _ _
  split
  · exact hspend _ _
  dsimp only
  split
  · exact hspend _ _
  · exact hspend _ _

/-- Receiving leaves the sending side alone, except that a close erases its key. -/
theorem Session.sendSide_onDatagram (s : Session) (src : Endpoint) (dgram : Bytes)
    (now : Instant) :
    (s.onDatagram P src dgram now).sendSide = s.sendSide ∧
      ((s.onDatagram P src dgram now).state = .established →
        s.state = .established ∧ (s.onDatagram P src dgram now).sendCs = s.sendCs) := by
  have htransport : ∀ t, (s.onTransport P src t now).sendSide = s.sendSide ∧
      (s.onTransport P src t now).state = s.state ∧
      (s.onTransport P src t now).sendCs = s.sendCs := by
    intro t
    have h := s.sendSide_openPacket (P := P) t.counter [] t.ciphertext now
    unfold Session.onTransport
    split
    · rename_i s' heq
      rw [heq] at h
      exact h
    · rename_i plain s' heq
      rw [heq] at h
      unfold Session.deliver
      dsimp only
      repeat' split
      all_goals exact h
  have hclose : ∀ m, (s.onClose P m now).sendSide = s.sendSide ∧
      ((s.onClose P m now).state = .established →
        s.state = .established ∧ (s.onClose P m now).sendCs = s.sendCs) := by
    intro m
    obtain ⟨hside, hstate, hcs⟩ :=
      s.sendSide_openPacket (P := P) m.counter [MsgType.close] m.ciphertext now
    unfold Session.onClose
    split
    · rename_i s' heq
      rw [heq] at hside hstate hcs
      exact ⟨hside, fun h => ⟨hstate ▸ h, hcs⟩⟩
    · rename_i plain s' heq
      rw [heq] at hside hstate hcs
      obtain ⟨hside', hkey'⟩ := { s' with lastRecv := now }.sendSide_closeWithCause
        .peerNotice (Session.closeReason plain)
      refine ⟨hside'.trans hside, fun h => ?_⟩
      obtain ⟨hold, hcs'⟩ := hkey' h
      exact ⟨hstate ▸ hold, hcs'.trans hcs⟩
  unfold Session.onDatagram
  repeat' split
  all_goals first
    | exact ⟨rfl, fun h => ⟨h, rfl⟩⟩
    | exact hclose _
    | exact ⟨(htransport _).1, fun h => ⟨(htransport _).2.1 ▸ h, (htransport _).2.2⟩⟩

theorem Session.sealPacket_out (s : Session) (type : MsgType) (ad plain : Bytes)
    (capacity : Nat) :
    s.out.length ≤ (s.sealPacket P type ad plain capacity).2.out.length ∧
      (s.sealPacket P type ad plain capacity).2.state = s.state := by
  unfold Session.sealPacket
  dsimp only
  split
  · exact ⟨Nat.le_refl _, rfl⟩
  · refine ⟨?_, rfl⟩
    show s.out.length ≤ (s.out ++ _).length
    rw [List.length_append]
    exact Nat.le_add_right _ _

/-- The key a packet is sealed under is brought up to the counter's generation
first. -/
theorem SendSchedule.advanceSendKeys {k : SymKey} {s : Session} (h : SendSchedule P k s)
    (hopen : s.state = .established) :
    (s.advanceSendKeys P s.sendCounter).sendCs =
      generationKey P k (s.generation s.sendCounter) := by
  have hgen := h.gen
  show (CipherState.rekey P)^[s.generation s.sendCounter - s.sendGen] s.sendCs = _
  rw [h.key hopen, generationKey_add, Nat.sub_add_cancel hgen]

theorem SendSchedule.sealPacket {k : SymKey} {s : Session} (h : SendSchedule P k s)
    (hopen : s.state = .established) (type : MsgType) (ad plain : Bytes) (capacity : Nat)
    (hroom : (s.sealPacket P type ad plain capacity).2.out.length < 2 ^ 64) :
    SendSchedule P k (s.sealPacket P type ad plain capacity).2 := by
  have hmax : max s.sendGen (s.generation s.sendCounter) = s.generation s.sendCounter :=
    Nat.max_eq_right h.gen
  have hcs : (CipherState.rekey P)^[s.generation s.sendCounter - s.sendGen] s.sendCs =
      generationKey P k (s.generation s.sendCounter) := h.advanceSendKeys hopen
  have hseals : ∀ e ∈ s.sealed ++ [(⟨(generationKey P k (s.generation s.sendCounter)).key,
      s.sendCounter, ad, plain, (generationKey P k (s.generation s.sendCounter)).encryptAt P
        s.sendCounter ad plain⟩ : Sealed)],
      e.nonce ≤ s.sendCounter ∧
        e.cipher = genuine P k s.cfg.rekeyShift e.nonce e.ad e.plain := by
    intro e he
    rcases List.mem_append.mp he with he | he
    · exact h.seals e he
    · rw [List.mem_singleton.mp he, genuine, Session.generation_eq h.shift]
      exact ⟨Nat.le_refl _, rfl⟩
  unfold Session.sealPacket Session.advanceSendKeys at hroom ⊢
  dsimp only at hroom ⊢
  rw [hcs, hmax] at hroom ⊢
  split
  · exact ⟨h.shift, h.counter, Nat.le_refl _, fun _ => rfl, hseals⟩
  · rename_i hfit
    rw [if_neg hfit] at hroom
    dsimp only at hroom
    rw [List.length_append, List.length_singleton, ← h.counter] at hroom
    have hnext : incr 64 s.sendCounter = s.sendCounter + 1 := incr_of_lt hroom
    refine ⟨h.shift, ?_, ?_, fun _ => rfl, fun e he => ?_⟩
    · show incr 64 s.sendCounter = _
      rw [hnext, h.counter, List.length_append, List.length_singleton]
    · show s.generation s.sendCounter ≤ s.generation (incr 64 s.sendCounter)
      rw [hnext]
      exact Session.generation_mono (Nat.le_succ _)
    · obtain ⟨hle, hcipher⟩ := hseals e he
      refine ⟨?_, hcipher⟩
      show e.nonce ≤ incr 64 s.sendCounter
      rw [hnext]
      exact Nat.le_succ_of_le hle

/-- The sending session, as long as fewer than 2^64 packets were queued. -/
def SendScheduled (P : Primitives) (k : SymKey) (s : Session) : Prop :=
  s.out.length < 2 ^ 64 → SendSchedule P k s

theorem SendScheduled.congr {k : SymKey} {s s' : Session} (h : SendScheduled P k s)
    (hside : s'.sendSide = s.sendSide)
    (hkey : s'.state = .established → s.state = .established ∧ s'.sendCs = s.sendCs) :
    SendScheduled P k s' := by
  intro hroom
  refine (h ?_).congr hside hkey
  have hout : s'.out = s.out := congrArg (fun t => t.2.2.2.1) hside
  rw [← hout]
  exact hroom

theorem SendScheduled.sealPacket {k : SymKey} {s : Session} (h : SendScheduled P k s)
    (hopen : s.state = .established) (type : MsgType) (ad plain : Bytes) (capacity : Nat) :
    SendScheduled P k (s.sealPacket P type ad plain capacity).2 := by
  intro hroom
  have hmono := (s.sealPacket_out (P := P) type ad plain capacity).1
  exact (h (Nat.lt_of_le_of_lt hmono hroom)).sealPacket hopen type ad plain capacity hroom

/-- A packet's two types, each with the associated data it is sealed against. -/
def PacketType (type : MsgType) (ad : Bytes) : Prop :=
  (type = MsgType.transport ∧ ad = []) ∨ (type = MsgType.close ∧ ad = [MsgType.close])

/-- What sealing a packet keeps, and depends on the sending side alone, every
call keeps. -/
theorem Session.step_sending {I : Session → Prop}
    (hcongr : ∀ s s' : Session, I s → s'.sendSide = s.sendSide →
      (s'.state = .established → s.state = .established ∧ s'.sendCs = s.sendCs) → I s')
    (hseal : ∀ (s : Session) (type : MsgType) (ad plain : Bytes) (capacity : Nat), I s →
      s.state = .established → PacketType type ad → I (s.sealPacket P type ad plain capacity).2)
    {s : Session} (h : I s) (op : Session.Op) : I (s.step P op) := by
  have hclose : ∀ (s : Session) (cause : CloseCause) (reason : Nat), I s →
      I (s.closeWithCause cause reason) := by
    intro s cause reason hs
    obtain ⟨hside, hkey⟩ := s.sendSide_closeWithCause cause reason
    exact hcongr s _ hs hside hkey
  have hsend : ∀ (payload : Bytes) (now : Instant), I (s.sendPacket P payload now).2 := by
    intro payload now
    unfold Session.sendPacket
    split
    · exact h
    · rename_i hstate
      have hnext := hseal s MsgType.transport [] payload (kMaxDatagram + 64) h
        (not_not.mp hstate) (.inl ⟨rfl, rfl⟩)
      dsimp only
      split
      · exact hnext
      · exact hcongr _ _ hnext rfl fun hopen => ⟨hopen, rfl⟩
  cases op with
  | send payload now =>
      show I (s.send P payload now).2
      unfold Session.send
      split
      · exact h
      · exact hsend payload now
  | onDatagram src dgram now =>
      obtain ⟨hside, hkey⟩ := s.sendSide_onDatagram (P := P) src dgram now
      exact hcongr s _ h hside hkey
  | onTimeout now =>
      show I (s.onTimeout P now)
      unfold Session.onTimeout
      split
      · exact h
      split
      · exact hclose s _ _ h
      split
      · exact hsend [] now
      · exact h
  | setPath path now => exact hcongr s _ h rfl fun hopen => ⟨hopen, rfl⟩
  | close => exact hclose s _ _ h
  | closeWithNotice reason =>
      show I (s.closeWithNotice P reason)
      unfold Session.closeWithNotice Session.close
      split
      · exact h
      · rename_i hstate
        have hopen : s.state = .established := by
          cases hs : s.state with
          | established => rfl
          | closed => exact absurd hs hstate
        have hone : ∀ s : Session, I s ∧ s.state = .established →
            I (s.queueClose P reason) ∧ (s.queueClose P reason).state = .established := by
          intro s hs
          exact ⟨hseal s _ _ _ _ hs.1 hs.2 (.inr ⟨rfl, rfl⟩),
            (s.sealPacket_out _ _ _ _).2.trans hs.2⟩
        exact hclose _ _ _ (hone _ (hone _ (hone _ ⟨h, hopen⟩))).1

theorem SendScheduled.step {k : SymKey} {s : Session} (h : SendScheduled P k s)
    (op : Session.Op) : SendScheduled P k (s.step P op) := by
  refine Session.step_sending (I := SendScheduled P k) ?_ ?_ h op
  · exact fun _ _ hs hside hkey => hs.congr hside hkey
  · exact fun _ type ad plain capacity hs hopen _ => hs.sealPacket hopen type ad plain capacity

/-- What a session seals is what its peer's schedule expects, up to 2^64
packets. -/
theorem sealed_genuine (P : Primitives) (cfg : SessionConfig) (path : Endpoint)
    (send recv : SymKey) (connId : ConnId) (start : Instant) (hhi : cfg.rekeyShift ≤ 63)
    (ops : List Session.Op) :
    let s := run (Session.step P) (Session.create cfg path send recv connId start) ops
    s.out.length < 2 ^ 64 → ∀ e ∈ s.sealed,
      e.cipher = genuine P send s.cfg.rekeyShift e.nonce e.ad e.plain := by
  intro s hroom
  have h : SendScheduled P send s := by
    refine run_invariant (fun _ op hs => hs.step op) (fun _ => ?_) ops
    exact ⟨hhi, rfl, Nat.zero_le _, fun _ => rfl, by simp [Session.create]⟩
  exact fun e he => ((h hroom).seals e he).2

/-- The datagram of a packet. -/
def packet (type : MsgType) (connId : ConnId) (counter : Nat) (ct : Bytes) : Bytes :=
  ({ type := type } : Header).image ++
    ({ connId := connId, counter := counter, ciphertext := ct } : Transport).image

/-- A datagram is taken when the packet in it opens. -/
theorem Session.onDatagram_packet {s : Session} (hopen : s.state = .established)
    (hconn : s.connId < 256 ^ 4) {c : Nat} (hc : c < 256 ^ 8) {type : MsgType} {ad : Bytes}
    (htype : PacketType type ad) (src : Endpoint) (ct : Bytes) (now : Instant) {plain : Bytes}
    (hplain : (s.openPacket P c ad ct now).1 = some plain) :
    (s.onDatagram P src (packet type s.connId c ct) now).accepted =
      (s.openPacket P c ad ct now).2.accepted := by
  have hopened : ∀ s₁ s₂ : Session, s₁.opened = s₂.opened → s₁.accepted = s₂.accepted := by
    intro s₁ s₂ h
    rw [Session.accepted, h, Session.accepted]
  have hheader : classify type ≠ .unknown := by
    rcases htype with ⟨rfl, -⟩ | ⟨rfl, -⟩ <;> decide
  unfold Session.onDatagram packet
  rw [if_neg (by rw [hopen]; decide), Header.decode_image rfl hheader (show 0 < 256 ^ 4 by decide)]
  dsimp only
  rw [Transport.decode_image hconn hc]
  rcases htype with ⟨rfl, rfl⟩ | ⟨rfl, rfl⟩
  · rw [if_neg (by decide), if_neg (by simp)]
    dsimp only
    rw [if_neg (by simp)]
    unfold Session.onTransport
    dsimp only
    generalize s.openPacket P c [] ct now = res at hplain ⊢
    obtain ⟨res, s'⟩ := res
    obtain rfl := hplain
    exact hopened _ _ (s'.deliver_log src plain now).1
  · rw [if_pos rfl]
    dsimp only
    rw [if_neg (by simp)]
    unfold Session.onClose
    dsimp only
    generalize s.openPacket P c [MsgType.close] ct now = res at hplain ⊢
    obtain ⟨res, s'⟩ := res
    obtain rfl := hplain
    exact hopened _ _ (Session.closeWithCause_log _ _ _).1

/-- Over every run of a session: its generation is that of the replay window's
mark; and as long as it is open, it holds the initial key rekeyed that often and
the one before, and a genuine packet that it has not had, and that is inside the
window, near ahead, or far ahead with a far jump due, is taken. -/
theorem key_schedule_agrees (P : Primitives) (hP : P.aead.Lawful) (cfg : SessionConfig)
    (path : Endpoint) (send recv : SymKey) (connId : ConnId) (start : Instant)
    (hlo : 7 ≤ cfg.rekeyShift) (hhi : cfg.rekeyShift ≤ 63) (hconn : connId < 2 ^ 32)
    (ops : List Session.Op) :
    let s := run (Session.step P) (Session.create cfg path send recv connId start) ops
    (s.replay.seen = true → s.recvGen = s.generation s.replay.highest) ∧
    (s.state = .established →
      s.recvCs = generationKey P recv s.recvGen ∧
      (s.recvGen > 0 → s.recvCsPrev = generationKey P recv (s.recvGen - 1)) ∧
      ∀ c ad plain now, c < 2 ^ 64 → Reachable s c now → c ∉ s.accepted →
        let ct := genuine P recv s.cfg.rekeyShift c ad plain
        (s.openPacket P c ad ct now).1 = some plain ∧
        ∀ type src, PacketType type ad →
          (s.onDatagram P src (packet type s.connId c ct) now).accepted =
            s.accepted ++ [c]) := by
  intro s
  have h : Schedule P recv s := run_invariant (fun _ op hs => hs.step op)
    (schedule_create cfg path send recv connId start hlo hhi hconn) ops
  refine ⟨fun _ => h.gen, fun hopen => ⟨h.key hopen, h.prev hopen, ?_⟩⟩
  intro c ad plain now hc hreach hnew
  obtain ⟨hplain, hacc⟩ := h.open_genuine hP hopen hreach hnew ad plain
  refine ⟨hplain, fun type src htype => ?_⟩
  rw [Session.onDatagram_packet hopen h.conn hc htype src _ now hplain, hacc]

/-- A session over the checksum primitives, and its peer. -/
def sampleReceiver : Session :=
  .create {} {} (Vector.replicate 32 1) (Vector.replicate 32 2) 9 0

/-- The datagram of its peer's packet `c`. -/
def sampleDatagram (c : Nat) : Bytes :=
  packet MsgType.transport 9 c
    (genuine Primitives.checksum (Vector.replicate 32 2) 16 c [] [1, 2])

/-- The last packets of the first generation and the first of the second, one of
them late. -/
def sampleArrivals : List Session.Op :=
  [.onDatagram {} (sampleDatagram 65530) 3, .onDatagram {} (sampleDatagram 65540) 4]

/-- The key has moved, and the packet that is late is taken with the one before. -/
theorem key_schedule_agrees_sample :
    let s := run (Session.step Primitives.checksum) sampleReceiver sampleArrivals
    s.accepted = [65530, 65540] ∧ s.recvGen = 1 ∧ s.generation 65535 = 0 ∧
      Reachable s 65535 5 ∧ 65535 ∉ s.accepted ∧
      (s.onDatagram Primitives.checksum {} (packet MsgType.transport s.connId 65535
        (genuine Primitives.checksum (Vector.replicate 32 2) s.cfg.rekeyShift 65535 [] [1, 2]))
          5).accepted = s.accepted ++ [65535] := by
  intro s
  have hs : s = run (Session.step Primitives.checksum) sampleReceiver sampleArrivals := rfl
  have haccepted : s.accepted = [65530, 65540] := by decide +kernel
  have hreach : Reachable s 65535 5 := .inl (by decide +kernel)
  have hnew : 65535 ∉ s.accepted := by
    rw [haccepted]
    decide
  have h := key_schedule_agrees Primitives.checksum Aead.checksum_lawful {} {}
    (Vector.replicate 32 1) (Vector.replicate 32 2) 9 0 (by decide) (by decide) (by decide)
    sampleArrivals
  have hsame : Session.create {} {} (Vector.replicate 32 1) (Vector.replicate 32 2) 9 0 =
      sampleReceiver := rfl
  rw [hsame] at h
  obtain ⟨-, hopen⟩ := h
  have hestablished : s.state = .established := by decide +kernel
  obtain ⟨-, -, haccept⟩ := hopen hestablished
  obtain ⟨-, hdgram⟩ := haccept 65535 [] [1, 2] 5 (by decide) hreach hnew
  have hlast := hdgram MsgType.transport {} (.inl ⟨rfl, rfl⟩)
  refine ⟨haccepted, ?_, ?_, hreach, hnew, ?_⟩
  · decide +kernel
  · decide +kernel
  · rw [hs]
    exact hlast

/-- A close notice from the peer, to `sampleReceiver`. -/
def sampleNotice : Bytes :=
  packet MsgType.close 9 0 (genuine Primitives.checksum (Vector.replicate 32 2) 16 0
    [MsgType.close] (beBytes 2 7))

/-- A session that took a genuine close notice holds no key of the schedule any
more. -/
theorem closed_session_holds_no_key :
    ¬ ∀ ops : List Session.Op,
      let s := run (Session.step Primitives.checksum) sampleReceiver ops
      s.recvCs = generationKey Primitives.checksum (Vector.replicate 32 2) s.recvGen := by
  intro h
  have hkey := h [.onDatagram {} sampleNotice 1]
  revert hkey
  decide +kernel

end UConnect
