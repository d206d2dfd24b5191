/-
  Session/Channel.lean --- at most once, and nothing invented.

  Two sessions with mirrored keys, and whatever byte strings an adversary feeds
  them.  Under an ideal AEAD what the receiver opens was sealed by the sender,
  and the replay window takes each counter once; so the payloads delivered are
  those of distinct `send` calls, and a peer's close notice is one it gave.

  The receiver's side is `Receiver.Inv`: events are the log of fresh packets.
  The sender's side is `Sender.Inv`: sealed packets are the log of calls.  The
  AEAD assumption joins the two logs.
-/
import UConnect.Foundation.Run
import UConnect.Session.Session
import Mathlib.Data.List.Nodup
import Mathlib.Data.List.Perm.Subperm

set_option autoImplicit false

namespace UConnect

open UConnect.Foundation UConnect.Crypto UConnect.Wire

variable {P : Primitives}

/-! ## What events say

The payloads and notices among events, and among the packets sealed and opened. -/

/-- The payload of a data event. -/
def SessionEvent.data? : SessionEvent → Option Bytes
  | .data bytes => some bytes
  | _ => none

/-- The reason of a peer's close notice. -/
def SessionEvent.notice? : SessionEvent → Option Nat
  | .closed .peerNotice reason => some reason
  | _ => none

namespace Session

/-- The payloads delivered so far. -/
def delivered (s : Session) : List Bytes := s.events.filterMap SessionEvent.data?

/-- The close notices received so far. -/
def noticed (s : Session) : List Nat := s.events.filterMap SessionEvent.notice?

/-- The counters the replay window took. -/
def accepted (s : Session) : List Nat := (s.opened.filter (·.fresh)).map (·.nonce)

end Session

/-- A fresh packet that carries data. -/
def Opened.isData (o : Opened) : Bool := o.fresh && o.ad.isEmpty && !o.plain.isEmpty

/-- A sealed packet that carries data. -/
def Sealed.isData (e : Sealed) : Bool := e.ad.isEmpty && !e.plain.isEmpty

/-! ## The receiver

Every event goes back to a packet that was opened under a counter never taken
before. -/

/-- The receiver's events are its fresh packets, and no counter is fresh twice. -/
structure Receiver.Inv (P : Primitives) (s : Session) : Prop where
  tracks : s.replay.Tracks s.accepted
  nodup : s.accepted.Nodup
  opens : ∀ o ∈ s.opened, P.aead.decrypt o.key o.nonce o.ad o.cipher = some o.plain
  data : s.delivered = (s.opened.filter Opened.isData).map (·.plain)
  notice : ∀ r ∈ s.noticed, ∃ o ∈ s.opened, o.fresh = true ∧ o.ad = [MsgType.close] ∧
    r = Session.closeReason o.plain

/-- Everything opening a packet does to the logs. -/
theorem Session.openPacket_log (s : Session) (c : Nat) (ad ct : Bytes) (now : Instant) :
    (s.openPacket P c ad ct now).2.events = s.events ∧
    (s.openPacket P c ad ct now).2.sealed = s.sealed ∧
    (((s.openPacket P c ad ct now).1 = none ∧
        (s.openPacket P c ad ct now).2.opened = s.opened ∧
        (s.openPacket P c ad ct now).2.replay = s.replay) ∨
      ∃ key plain, P.aead.decrypt key c ad ct = some plain ∧
        (s.openPacket P c ad ct now).2.opened =
          s.opened ++ [⟨key, c, ad, plain, ct, (s.replay.accept c).1⟩] ∧
        (s.openPacket P c ad ct now).2.replay = (s.replay.accept c).2 ∧
        (s.openPacket P c ad ct now).1 =
          if (s.replay.accept c).1 then some plain else none) := by
  have hspend : ∀ g j, (s.spendFarJump g j now).events = s.events ∧
      (s.spendFarJump g j now).sealed = s.sealed ∧
      (s.spendFarJump g j now).opened = s.opened ∧
      (s.spendFarJump g j now).replay = s.replay := by
    intro g j
    unfold Session.spendFarJump
    split <;> exact ⟨rfl, rfl, rfl, rfl⟩
  unfold Session.openPacket
  dsimp only
  split
  · exact ⟨rfl, rfl, .inl ⟨rfl, rfl, rfl⟩⟩
  · rename_i use jumped _
    obtain ⟨hev, hsealed, hop, hrep⟩ := hspend (s.generation c) jumped
    split
    · exact ⟨hev, hsealed, .inl ⟨rfl, hop, hrep⟩⟩
    · rename_i plain hdec
      have hdec : P.aead.decrypt use.key c ad ct = some plain := by
        unfold CipherState.decryptAt at hdec
        split at hdec
        · cases hdec
        · exact hdec
      simp only [hrep, hop]
      cases (s.replay.accept c).1 with
      | false =>
          exact ⟨hev, hsealed, .inr ⟨use.key, plain, hdec, rfl, rfl, rfl⟩⟩
      | true =>
          cases jumped with
          | false => exact ⟨hev, hsealed, .inr ⟨use.key, plain, hdec, rfl, rfl, rfl⟩⟩
          | true => exact ⟨hev, hsealed, .inr ⟨use.key, plain, hdec, rfl, rfl, rfl⟩⟩

/-- The logs of a receiver, as its invariant reads them. -/
theorem Receiver.Inv.congr {s s' : Session} (h : Receiver.Inv P s)
    (hopened : s'.opened = s.opened) (hreplay : s'.replay = s.replay)
    (hdata : s'.delivered = s.delivered) (hnotice : s'.noticed = s.noticed) :
    Receiver.Inv P s' where
  tracks := by rw [Session.accepted, hopened, hreplay]; exact h.tracks
  nodup := by rw [Session.accepted, hopened]; exact h.nodup
  opens := by rw [hopened]; exact h.opens
  data := by rw [hdata, hopened]; exact h.data
  notice := by rw [hnotice, hopened]; exact h.notice

/-- One more opened packet: its counter is new if it is fresh, and the events
grow by what it carries. -/
theorem Receiver.Inv.open {s s' : Session} (h : Receiver.Inv P s) {o : Opened}
    (hopened : s'.opened = s.opened ++ [o]) (hfresh : o.fresh = (s.replay.accept o.nonce).1)
    (hreplay : s'.replay = (s.replay.accept o.nonce).2)
    (hdec : P.aead.decrypt o.key o.nonce o.ad o.cipher = some o.plain)
    (hdata : s'.delivered = s.delivered ++ if o.isData then [o.plain] else [])
    (hnotice : s'.noticed = s.noticed ∨ s'.noticed = s.noticed ++ [Session.closeReason o.plain] ∧
      o.fresh = true ∧ o.ad = [MsgType.close]) : Receiver.Inv P s' := by
  have hacc : s'.accepted = s.accepted ++ if o.fresh then [o.nonce] else [] := by
    unfold Session.accepted
    rw [hopened, List.filter_append, List.map_append]
    cases hf : o.fresh <;> simp [hf]
  have htracks := h.tracks.accept o.nonce
  rw [← hfresh, ← hreplay] at htracks
  constructor
  case tracks =>
    refine htracks.of_mem_iff fun c => ?_
    rw [hacc]
    cases o.fresh <;> simp [or_comm]
  case nodup =>
    rw [hacc]
    cases hf : o.fresh with
    | false => simpa using h.nodup
    | true =>
        rw [hf] at hfresh
        have hnew := h.tracks.not_mem_of_accept hfresh.symm
        refine h.nodup.append (by simp) ?_
        simpa using hnew
  case opens =>
    intro x hx
    rw [hopened, List.mem_append, List.mem_singleton] at hx
    obtain hx | rfl := hx
    · exact h.opens x hx
    · exact hdec
  case data =>
    rw [hdata, hopened, List.filter_append, List.map_append, h.data]
    cases hd : o.isData <;> simp [hd]
  case notice =>
    intro r hr
    have hold : r ∈ s.noticed → ∃ o' ∈ s'.opened, o'.fresh = true ∧
        o'.ad = [MsgType.close] ∧ r = Session.closeReason o'.plain := by
      intro hr
      obtain ⟨x, hx, hrest⟩ := h.notice r hr
      exact ⟨x, by rw [hopened]; exact List.mem_append_left _ hx, hrest⟩
    obtain hn | ⟨hn, hf, had⟩ := hnotice
    · rw [hn] at hr
      exact hold hr
    · rw [hn, List.mem_append, List.mem_singleton] at hr
      obtain hr | rfl := hr
      · exact hold hr
      · exact ⟨o, by rw [hopened]; simp, hf, had, rfl⟩

/-- Opening a packet without an event: nothing opened, or a replay. -/
theorem Receiver.Inv.of_refused {s : Session} (h : Receiver.Inv P s) {c : Nat} {ad ct : Bytes}
    {now : Instant} (hnone : (s.openPacket P c ad ct now).1 = none) :
    Receiver.Inv P (s.openPacket P c ad ct now).2 := by
  obtain ⟨hev, -, hcase⟩ := s.openPacket_log (P := P) c ad ct now
  have hdata : (s.openPacket P c ad ct now).2.delivered = s.delivered := by
    unfold Session.delivered; rw [hev]
  have hnotice : (s.openPacket P c ad ct now).2.noticed = s.noticed := by
    unfold Session.noticed; rw [hev]
  obtain ⟨-, hop, hrep⟩ | ⟨key, plain, hdec, hop, hrep, hres⟩ := hcase
  · exact h.congr hop hrep hdata hnotice
  · have hstale : (s.replay.accept c).1 = false := by
      rw [hres] at hnone
      split at hnone
      · cases hnone
      · rename_i hf; exact Bool.not_eq_true _ ▸ hf
    refine h.open hop rfl hrep hdec ?_ (.inl hnotice)
    rw [hdata]
    simp [Opened.isData, hstale]

/-- A payload handed up is a data event; nothing else the invariant reads moves. -/
theorem Session.deliver_log (s : Session) (src : Endpoint) (plain : Bytes) (now : Instant) :
    (s.deliver src plain now).opened = s.opened ∧
    (s.deliver src plain now).replay = s.replay ∧
    (s.deliver src plain now).sealed = s.sealed ∧
    (s.deliver src plain now).delivered =
      s.delivered ++ (if plain.isEmpty then [] else [plain]) ∧
    (s.deliver src plain now).noticed = s.noticed := by
  unfold Session.deliver Session.delivered Session.noticed
  dsimp only
  split <;> split <;>
    simp [SessionEvent.data?, SessionEvent.notice?, List.filterMap_cons]

theorem Session.closeWithCause_log (s : Session) (cause : CloseCause) (reason : Nat) :
    (s.closeWithCause cause reason).opened = s.opened ∧
    (s.closeWithCause cause reason).replay = s.replay ∧
    (s.closeWithCause cause reason).sealed = s.sealed ∧
    (s.closeWithCause cause reason).delivered = s.delivered ∧
    ((s.closeWithCause cause reason).noticed = s.noticed ∨
      cause = .peerNotice ∧
        (s.closeWithCause cause reason).noticed = s.noticed ++ [reason]) := by
  unfold Session.closeWithCause Session.delivered Session.noticed
  split
  · exact ⟨rfl, rfl, rfl, rfl, .inl rfl⟩
  · refine ⟨rfl, rfl, rfl, by simp [SessionEvent.data?, List.filterMap_append], ?_⟩
    cases cause <;> simp [SessionEvent.notice?, List.filterMap_append]

/-- A packet that was taken: what the log gained, and the state it left. -/
theorem Session.openPacket_some {s s' : Session} {c : Nat} {ad ct plain : Bytes} {now : Instant}
    (h : s.openPacket P c ad ct now = (some plain, s')) :
    s'.delivered = s.delivered ∧ s'.noticed = s.noticed ∧ ∃ key,
      P.aead.decrypt key c ad ct = some plain ∧ (s.replay.accept c).1 = true ∧
      s'.opened = s.opened ++ [⟨key, c, ad, plain, ct, (s.replay.accept c).1⟩] ∧
      s'.replay = (s.replay.accept c).2 := by
  obtain ⟨hev, -, hcase⟩ := s.openPacket_log (P := P) c ad ct now
  rw [h] at hev hcase
  refine ⟨by rw [Session.delivered, hev, Session.delivered],
    by rw [Session.noticed, hev, Session.noticed], ?_⟩
  obtain ⟨hres, -⟩ | ⟨key, plain', hdec, hop, hrep, hres⟩ := hcase
  · cases hres
  · dsimp only at hres hop hrep
    split at hres
    · rename_i hfresh
      obtain rfl := Option.some.inj hres
      exact ⟨key, hdec, hfresh, hop, hrep⟩
    · cases hres

theorem Receiver.Inv.onTransport {s : Session} (h : Receiver.Inv P s) (src : Endpoint)
    (t : Transport) (now : Instant) : Receiver.Inv P (s.onTransport P src t now) := by
  unfold Session.onTransport
  split
  · rename_i s' heq
    have := h.of_refused (P := P) (congrArg Prod.fst heq)
    rwa [heq] at this
  · rename_i plain s' heq
    obtain ⟨hdel, hnot, key, hdec, hfresh, hop, hrep⟩ := Session.openPacket_some heq
    obtain ⟨hop', hrep', -, hdel', hnot'⟩ := s'.deliver_log src plain now
    refine h.open (hop'.trans hop) rfl (hrep'.trans hrep) hdec ?_ (.inl (hnot'.trans hnot))
    rw [hdel', hdel]
    cases hp : plain.isEmpty <;> simp [Opened.isData, hfresh, hp]

theorem Receiver.Inv.onClose {s : Session} (h : Receiver.Inv P s) (m : Transport)
    (now : Instant) : Receiver.Inv P (s.onClose P m now) := by
  unfold Session.onClose
  split
  · rename_i s' heq
    have := h.of_refused (P := P) (congrArg Prod.fst heq)
    rwa [heq] at this
  · rename_i plain s' heq
    obtain ⟨hdel, hnot, key, hdec, hfresh, hop, hrep⟩ := Session.openPacket_some heq
    obtain ⟨hop', hrep', -, hdel', hnot'⟩ :=
      { s' with lastRecv := now }.closeWithCause_log .peerNotice (Session.closeReason plain)
    refine h.open (hop'.trans hop) rfl (hrep'.trans hrep) hdec ?_ ?_
    · rw [hdel', show ({ s' with lastRecv := now } : Session).delivered = s.delivered from hdel]
      simp [Opened.isData]
    · obtain hnot' | ⟨-, hnot'⟩ := hnot'
      · exact .inl (hnot'.trans hnot)
      · refine .inr ⟨hnot'.trans ?_, hfresh, rfl⟩
        exact congrArg (· ++ [Session.closeReason plain]) hnot

theorem Receiver.Inv.onDatagram {s : Session} (h : Receiver.Inv P s) (src : Endpoint)
    (dgram : Bytes) (now : Instant) : Receiver.Inv P (s.onDatagram P src dgram now) := by
  unfold Session.onDatagram
  split
  · exact h
  split
  · exact h
  split
  · split
    · exact h
    · split
      · exact h
      · exact h.onClose _ now
  · split
    · exact h
    · split
      · exact h
      · split
        · exact h
        · exact h.onTransport src _ now

/-! ## The sender

Every packet goes back to a call of the application, and no two have the same
nonce. -/

/-- The calls made on a sending session: the payloads of `send`, and the reasons
of `close_with_notice`. -/
structure Calls where
  sent : List Bytes := []
  notices : List UInt16 := []

/-- The log after a call. -/
def Calls.record (k : Calls) : Session.Op → Calls
  | .send payload _ => { k with sent := k.sent ++ [payload] }
  | .closeWithNotice reason => { k with notices := k.notices ++ [reason] }
  | _ => k

/-- What the sender sealed, it was asked to send. -/
structure Sender.Inv (P : Primitives) (k : Calls) (s : Session) : Prop where
  seals : ∀ e ∈ s.sealed, e.cipher = P.aead.encrypt e.key e.nonce e.ad e.plain
  data : ((s.sealed.filter Sealed.isData).map (·.plain)).Sublist k.sent
  notice : ∀ e ∈ s.sealed, e.ad = [MsgType.close] →
    ∃ r ∈ k.notices, e.plain = beBytes 2 r.toNat

/-- Sealing a packet adds one entry to the log and leaves the receiving side
alone. -/
theorem Session.sealPacket_log (s : Session) (type : MsgType) (ad plain : Bytes)
    (capacity : Nat) :
    (s.sealPacket P type ad plain capacity).2.events = s.events ∧
    (s.sealPacket P type ad plain capacity).2.opened = s.opened ∧
    (s.sealPacket P type ad plain capacity).2.replay = s.replay ∧
    ∃ key nonce, (s.sealPacket P type ad plain capacity).2.sealed =
      s.sealed ++ [⟨key, nonce, ad, plain, P.aead.encrypt key nonce ad plain⟩] := by
  unfold Session.sealPacket
  dsimp only
  split
  · exact ⟨rfl, rfl, rfl, _, _, rfl⟩
  · exact ⟨rfl, rfl, rfl, _, _, rfl⟩

theorem Session.sendPacket_log (s : Session) (payload : Bytes) (now : Instant) :
    (s.sendPacket P payload now).2.events = s.events ∧
    (s.sendPacket P payload now).2.opened = s.opened ∧
    (s.sendPacket P payload now).2.replay = s.replay ∧
    ((s.sendPacket P payload now).2.sealed = s.sealed ∨
      ∃ key nonce, (s.sendPacket P payload now).2.sealed =
        s.sealed ++ [⟨key, nonce, [], payload, P.aead.encrypt key nonce [] payload⟩]) := by
  obtain ⟨hev, hop, hrep, hseal⟩ :=
    s.sealPacket_log (P := P) MsgType.transport [] payload (kMaxDatagram + 64)
  unfold Session.sendPacket
  split
  · exact ⟨rfl, rfl, rfl, .inl rfl⟩
  · dsimp only
    split
    · exact ⟨hev, hop, hrep, .inr hseal⟩
    · exact ⟨hev, hop, hrep, .inr hseal⟩

theorem Session.openPacket_sealed (s : Session) (c : Nat) (ad ct : Bytes) (now : Instant) :
    (s.openPacket P c ad ct now).2.sealed = s.sealed :=
  (s.openPacket_log c ad ct now).2.1

theorem Session.onDatagram_sealed (s : Session) (src : Endpoint) (dgram : Bytes)
    (now : Instant) : (s.onDatagram P src dgram now).sealed = s.sealed := by
  have htransport : ∀ t, (s.onTransport P src t now).sealed = s.sealed := by
    intro t
    have h := s.openPacket_sealed (P := P) t.counter [] t.ciphertext now
    unfold Session.onTransport
    split
    · rename_i s' heq; rw [heq] at h; exact h
    · rename_i plain s' heq
      rw [heq] at h
      exact (s'.deliver_log src plain now).2.2.1.trans h
  have hclose : ∀ m, (s.onClose P m now).sealed = s.sealed := by
    intro m
    have h := s.openPacket_sealed (P := P) m.counter [MsgType.close] m.ciphertext now
    unfold Session.onClose
    split
    · rename_i s' heq; rw [heq] at h; exact h
    · rename_i plain s' heq
      rw [heq] at h
      exact (Session.closeWithCause_log _ _ _).2.2.1.trans h
  unfold Session.onDatagram
  repeat' split
  all_goals first | rfl | exact hclose _ | exact htransport _

/-- The log of seals, as the sender's invariant reads it. -/
theorem Sender.Inv.mono {s s' : Session} {k k' : Calls} (h : Sender.Inv P k s)
    (hsealed : s'.sealed = s.sealed) (hsent : k.sent.Sublist k'.sent)
    (hnotices : k.notices ⊆ k'.notices) : Sender.Inv P k' s' where
  seals := by rw [hsealed]; exact h.seals
  data := by rw [hsealed]; exact h.data.trans hsent
  notice e he had := by
    rw [hsealed] at he
    obtain ⟨r, hr, hplain⟩ := h.notice e he had
    exact ⟨r, hnotices hr, hplain⟩

/-- One more sealed packet that a call accounts for. -/
theorem Sender.Inv.seal {s s' : Session} {k k' : Calls} (h : Sender.Inv P k s) {e : Sealed}
    (hsealed : s'.sealed = s.sealed ++ [e])
    (hcipher : e.cipher = P.aead.encrypt e.key e.nonce e.ad e.plain)
    (hsent : (k.sent ++ if e.isData then [e.plain] else []).Sublist k'.sent)
    (hnotices : k.notices ⊆ k'.notices)
    (hclose : e.ad = [MsgType.close] → ∃ r ∈ k'.notices, e.plain = beBytes 2 r.toNat) :
    Sender.Inv P k' s' where
  seals x hx := by
    rw [hsealed, List.mem_append, List.mem_singleton] at hx
    obtain hx | rfl := hx
    · exact h.seals x hx
    · exact hcipher
  data := by
    rw [hsealed, List.filter_append, List.map_append]
    refine List.Sublist.trans (List.Sublist.append h.data ?_) hsent
    cases hd : e.isData <;> simp [hd]
  notice x hx had := by
    rw [hsealed, List.mem_append, List.mem_singleton] at hx
    obtain hx | rfl := hx
    · obtain ⟨r, hr, hplain⟩ := h.notice x hx had
      exact ⟨r, hnotices hr, hplain⟩
    · exact hclose had

/-! ## Every call keeps both invariants

Each call is at most one packet out and one packet in; the rest of the session
is quiet. -/

/-- A call that leaves events and opened packets alone suits the receiver. -/
theorem Receiver.Inv.of_quiet {s s' : Session} (h : Receiver.Inv P s)
    (hev : s'.events = s.events) (hop : s'.opened = s.opened)
    (hrep : s'.replay = s.replay) : Receiver.Inv P s' := by
  refine h.congr hop hrep ?_ ?_
  · rw [Session.delivered, hev, Session.delivered]
  · rw [Session.noticed, hev, Session.noticed]

theorem Receiver.Inv.closeWithCause {s : Session} (h : Receiver.Inv P s) {cause : CloseCause}
    (hcause : cause ≠ .peerNotice) (reason : Nat) :
    Receiver.Inv P (s.closeWithCause cause reason) := by
  obtain ⟨hop, hrep, -, hdel, hnot⟩ := s.closeWithCause_log cause reason
  obtain hnot | ⟨hpeer, -⟩ := hnot
  · exact h.congr hop hrep hdel hnot
  · exact absurd hpeer hcause

theorem Receiver.Inv.queueClose {s : Session} (h : Receiver.Inv P s) (reason : UInt16) :
    Receiver.Inv P (s.queueClose P reason) := by
  obtain ⟨hev, hop, hrep, -⟩ :=
    s.sealPacket_log (P := P) MsgType.close [MsgType.close] (beBytes 2 reason.toNat) kMaxDatagram
  exact h.of_quiet hev hop hrep

theorem Receiver.Inv.step {s : Session} (h : Receiver.Inv P s) (op : Session.Op) :
    Receiver.Inv P (s.step P op) := by
  cases op with
  | send payload now =>
      show Receiver.Inv P (s.send P payload now).2
      unfold Session.send
      split
      · exact h
      · obtain ⟨hev, hop, hrep, -⟩ := s.sendPacket_log (P := P) payload now
        exact h.of_quiet hev hop hrep
  | onDatagram src dgram now => exact h.onDatagram src dgram now
  | onTimeout now =>
      show Receiver.Inv P (s.onTimeout P now)
      unfold Session.onTimeout
      split
      · exact h
      split
      · exact h.closeWithCause (by decide) 0
      split
      · obtain ⟨hev, hop, hrep, -⟩ := s.sendPacket_log (P := P) [] now
        exact h.of_quiet hev hop hrep
      · exact h
  | setPath path now => exact h.of_quiet rfl rfl rfl
  | close => exact h.closeWithCause (by decide) 0
  | closeWithNotice reason =>
      show Receiver.Inv P (s.closeWithNotice P reason)
      unfold Session.closeWithNotice Session.close
      split
      · exact h
      · exact (((h.queueClose reason).queueClose reason).queueClose reason).closeWithCause
          (by decide) 0

theorem Sender.Inv.queueClose {s : Session} {k : Calls} (h : Sender.Inv P k s)
    {reason : UInt16} (hreason : reason ∈ k.notices) :
    Sender.Inv P k (s.queueClose P reason) := by
  obtain ⟨-, -, -, key, nonce, hseal⟩ :=
    s.sealPacket_log (P := P) MsgType.close [MsgType.close] (beBytes 2 reason.toNat) kMaxDatagram
  exact h.seal hseal rfl (by simp [Sealed.isData]) (fun _ hr => hr)
    (fun _ => ⟨reason, hreason, rfl⟩)

theorem Sender.Inv.step {s : Session} {k : Calls} (h : Sender.Inv P k s) (op : Session.Op) :
    Sender.Inv P (k.record op) (s.step P op) := by
  cases op with
  | send payload now =>
      have hmono : Sender.Inv P (k.record (.send payload now)) s :=
        h.mono rfl (List.sublist_append_left _ _) (fun _ hr => hr)
      show Sender.Inv P (k.record (.send payload now)) (s.send P payload now).2
      unfold Session.send
      split
      · exact hmono
      · rename_i hne
        obtain ⟨-, -, -, hseal | ⟨key, nonce, hseal⟩⟩ := s.sendPacket_log (P := P) payload now
        · exact hmono.mono hseal (List.Sublist.refl _) (fun _ hr => hr)
        · refine h.seal hseal rfl ?_ (fun _ hr => hr) (fun had => absurd had (by simp))
          simp [Sealed.isData, hne, Calls.record]
  | onDatagram src dgram now =>
      exact h.mono (s.onDatagram_sealed src dgram now) (List.Sublist.refl _) (fun _ hr => hr)
  | onTimeout now =>
      show Sender.Inv P k (s.onTimeout P now)
      unfold Session.onTimeout
      split
      · exact h
      split
      · exact h.mono (s.closeWithCause_log _ _).2.2.1 (List.Sublist.refl _) (fun _ hr => hr)
      split
      · obtain ⟨-, -, -, hseal | ⟨key, nonce, hseal⟩⟩ := s.sendPacket_log (P := P) [] now
        · exact h.mono hseal (List.Sublist.refl _) (fun _ hr => hr)
        · -- a keepalive carries no data
          exact h.seal hseal rfl (by simp [Sealed.isData]) (fun _ hr => hr)
            (fun had => absurd had (by simp))
      · exact h
  | setPath path now => exact h.mono rfl (List.Sublist.refl _) (fun _ hr => hr)
  | close =>
      exact h.mono (s.closeWithCause_log _ _).2.2.1 (List.Sublist.refl _) (fun _ hr => hr)
  | closeWithNotice reason =>
      have hmono : Sender.Inv P (k.record (.closeWithNotice reason)) s :=
        h.mono rfl (List.Sublist.refl _) (List.subset_append_left _ _)
      have hmem : reason ∈ (k.record (.closeWithNotice reason)).notices := by
        simp [Calls.record]
      show Sender.Inv P (k.record (.closeWithNotice reason)) (s.closeWithNotice P reason)
      unfold Session.closeWithNotice Session.close
      split
      · exact hmono
      · have hthree := ((hmono.queueClose hmem).queueClose hmem).queueClose hmem
        exact hthree.mono (Session.closeWithCause_log _ _ _).2.2.1 (List.Sublist.refl _)
          (fun _ hr => hr)

/-! ## The channel

Two sessions whose keys mirror each other, whatever the network does with the
datagrams. -/

/-- Two ends of a channel, and the calls made on the first. -/
structure Channel where
  a : Session
  b : Session
  calls : Calls := {}

/-- A call on either end. -/
inductive Channel.Op where
  | a (op : Session.Op)
  | b (op : Session.Op)

namespace Channel

/-- The channel after a call; packets travel only as the byte strings somebody
feeds to `on_datagram`. -/
def step (P : Primitives) (c : Channel) : Channel.Op → Channel
  | .a op => { c with a := c.a.step P op, calls := c.calls.record op }
  | .b op => { c with b := c.b.step P op }

/-- Two sessions with mirrored keys and one connection id. -/
def create (cfgA cfgB : SessionConfig) (pathA pathB : Endpoint) (ab ba : SymKey)
    (connId : ConnId) (now : Instant) : Channel where
  a := .create cfgA pathA ab ba connId now
  b := .create cfgB pathB ba ab connId now

/-- The ideal AEAD, of the calls made on this channel: what `b` opened, `a`
sealed under the same key, nonce and associated data. -/
def Authentic (c : Channel) : Prop :=
  ∀ o ∈ c.b.opened, ∃ e ∈ c.a.sealed,
    e.key = o.key ∧ e.nonce = o.nonce ∧ e.ad = o.ad ∧ e.cipher = o.cipher

/-- What either end's history says. -/
structure Inv (P : Primitives) (c : Channel) : Prop where
  receiver : Receiver.Inv P c.b
  sender : Sender.Inv P c.calls c.a

theorem inv_create (cfgA cfgB : SessionConfig) (pathA pathB : Endpoint) (ab ba : SymKey)
    (connId : ConnId) (now : Instant) :
    (create cfgA cfgB pathA pathB ab ba connId now).Inv P where
  receiver := ⟨ReplayWindow.tracks_init, List.nodup_nil, by simp [create, Session.create],
    rfl, by simp [create, Session.create, Session.noticed]⟩
  sender := ⟨by simp [create, Session.create], by simp [create, Session.create],
    by simp [create, Session.create]⟩

theorem Inv.step {c : Channel} (h : c.Inv P) (op : Channel.Op) : (c.step P op).Inv P := by
  cases op with
  | a op => exact ⟨h.receiver, h.sender.step op⟩
  | b op => exact ⟨h.receiver.step op, h.sender⟩

/-- Under an ideal AEAD a packet opens to the plaintext it was sealed from. -/
theorem Inv.sealed_of_opened {c : Channel} (h : c.Inv P) (hP : P.aead.Lawful)
    (hideal : c.Authentic) {o : Opened} (ho : o ∈ c.b.opened) :
    ∃ e ∈ c.a.sealed, e.nonce = o.nonce ∧ e.ad = o.ad ∧ e.plain = o.plain := by
  obtain ⟨e, he, hkey, hnonce, had, hcipher⟩ := hideal o ho
  have hopen := h.receiver.opens o ho
  rw [← hkey, ← hnonce, ← had, ← hcipher, h.sender.seals e he, hP.decrypt_encrypt] at hopen
  exact ⟨e, he, hnonce, had, Option.some.inj hopen⟩

/-- The fresh data packets are distinct sealed packets. -/
theorem Inv.delivered_subperm {c : Channel} (h : c.Inv P) (hP : P.aead.Lawful)
    (hideal : c.Authentic) : c.b.delivered.Subperm c.calls.sent := by
  let tag (o : Opened) : Nat × Bytes := (o.nonce, o.plain)
  let mark (e : Sealed) : Nat × Bytes := (e.nonce, e.plain)
  have hnodup : ((c.b.opened.filter Opened.isData).map tag).Nodup := by
    refine List.Nodup.of_map Prod.fst ?_
    rw [List.map_map]
    refine List.Nodup.sublist ?_ h.receiver.nodup
    refine List.Sublist.map _ (List.monotone_filter_right _ fun o ho => ?_)
    -- data packets are fresh
    simp only [Opened.isData, Bool.and_eq_true] at ho
    exact ho.1.1
  have hsubset : (c.b.opened.filter Opened.isData).map tag ⊆
      (c.a.sealed.filter Sealed.isData).map mark := by
    intro x hx
    obtain ⟨o, ho, rfl⟩ := List.mem_map.mp hx
    obtain ⟨ho, hdata⟩ := List.mem_filter.mp ho
    obtain ⟨e, he, hnonce, had, hplain⟩ := h.sealed_of_opened hP hideal ho
    refine List.mem_map.mpr ⟨e, List.mem_filter.mpr ⟨he, ?_⟩, ?_⟩
    · simp only [Opened.isData, Bool.and_eq_true] at hdata
      simp only [Sealed.isData, had, hplain, hdata.1.2, hdata.2, Bool.and_self]
    · exact Prod.ext hnonce hplain
  obtain ⟨l, hperm, hsub⟩ := List.subperm_of_subset hnodup hsubset
  have hperm := hperm.map Prod.snd
  have hsub := hsub.map Prod.snd
  rw [List.map_map] at hperm hsub
  rw [h.receiver.data]
  exact List.Subperm.trans ⟨l.map Prod.snd, hperm, hsub⟩ h.sender.data.subperm

/-- A close notice carries the reason it was asked for. -/
theorem closeReason_beBytes (reason : UInt16) :
    Session.closeReason (beBytes 2 reason.toNat) = reason.toNat := by
  unfold Session.closeReason
  rw [if_pos (by simp), List.take_of_length_le (by simp)]
  exact beVal_beBytes_of_lt reason.toNat_lt

theorem Inv.noticed_mem {c : Channel} (h : c.Inv P) (hP : P.aead.Lawful)
    (hideal : c.Authentic) {r : Nat} (hr : r ∈ c.b.noticed) :
    ∃ reason ∈ c.calls.notices, r = reason.toNat := by
  obtain ⟨o, ho, -, had, rfl⟩ := h.receiver.notice r hr
  obtain ⟨e, he, -, head, hplain⟩ := h.sealed_of_opened hP hideal ho
  obtain ⟨reason, hreason, heq⟩ := h.sender.notice e he (head.trans had)
  refine ⟨reason, hreason, ?_⟩
  rw [← hplain, heq, closeReason_beBytes]

/-- Between two ends with mirrored keys, whatever is called on them in any order
and whatever datagrams they are fed: the payloads delivered at `b` are those of
distinct `send` calls at `a`, and a peer's notice at `b` carries the reason of a
`close_with_notice` at `a`. -/
theorem at_most_once_nothing_invented (P : Primitives) (hP : P.aead.Lawful)
    (cfgA cfgB : SessionConfig) (pathA pathB : Endpoint) (ab ba : SymKey) (connId : ConnId)
    (start : Instant) (ops : List Channel.Op)
    (hideal : (run (step P) (create cfgA cfgB pathA pathB ab ba connId start)
      ops).Authentic) :
    let c := run (step P) (create cfgA cfgB pathA pathB ab ba connId start) ops
    c.b.delivered.Subperm c.calls.sent ∧
      ∀ r, .closed .peerNotice r ∈ c.b.events → ∃ reason ∈ c.calls.notices, r = reason.toNat := by
  intro c
  have hinv : c.Inv P := run_invariant (fun _ op h => h.step op)
    (inv_create cfgA cfgB pathA pathB ab ba connId start) ops
  refine ⟨hinv.delivered_subperm hP hideal, fun r hr => hinv.noticed_mem hP hideal ?_⟩
  exact List.mem_filterMap.mpr ⟨_, hr, rfl⟩

/-- A channel over the checksum primitives. -/
def sample : Channel :=
  create {} {} {} {} (Vector.replicate 32 1) (Vector.replicate 32 2) 9 0

/-- The datagrams `a` queues for one payload and a close notice. -/
def sampleDatagrams : List Bytes :=
  let a := run (Session.step Primitives.checksum) sample.a
    [.send [5, 6] 0, .closeWithNotice 7]
  a.out.map (·.data)

/-- The payload, a replay of it, a forgery, and the close notices. -/
def sampleOps : List Channel.Op :=
  [.a (.send [5, 6] 0), .a (.closeWithNotice 7)] ++
  ((sampleDatagrams.take 1 ++ sampleDatagrams.take 1 ++ [[0x40, 1, 0, 0]] ++
    sampleDatagrams.drop 1).map fun d => .b (.onDatagram {} d 1))

theorem at_most_once_nothing_invented_sample :
    let c := run (step Primitives.checksum) sample sampleOps
    c.Authentic ∧ c.b.delivered.Subperm c.calls.sent ∧ c.b.delivered = [[5, 6]] ∧
      .closed .peerNotice 7 ∈ c.b.events := by
  intro c
  have hideal : c.Authentic := by
    unfold Authentic
    decide +kernel
  have hmain := at_most_once_nothing_invented Primitives.checksum Aead.checksum_lawful {} {} {}
    {} (Vector.replicate 32 1) (Vector.replicate 32 2) 9 0 sampleOps hideal
  exact ⟨hideal, hmain.1, by decide +kernel, by decide +kernel⟩

end Channel

end UConnect
