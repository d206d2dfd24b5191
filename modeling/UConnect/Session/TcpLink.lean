/-
  Session/TcpLink.lean --- two sessions that completed their handshake.

  A link is two ends and, for each, the bytes taken from it that the other has
  not received yet.  Its runs interleave the calls of both owners with
  deliveries of any size.  It starts where the responder has read message 1:
  from there on either end may seal records, and the initiator still has message
  2 to read.

  THE INVARIANT.  For each direction, `Flow`: all bytes on their way, from the
  receiver's buffer to the sender's output, are the frames of some records that
  start at the receiver's half and end at the sender's, and what the receiver
  was told and the records on their way together are what was sent.
-/
import UConnect.Session.TcpRecords

set_option autoImplicit false

namespace UConnect

open UConnect.Foundation UConnect.Crypto

namespace TcpSession

/-! ## Links

Both ends and the bytes between them.  A step is a call at one end, or the
arrival of some of the bytes that were taken from the other. -/

/-- One end of a link. -/
structure End where
  session : TcpSession
  /-- Taken from it, not yet received by the other end. -/
  wire : Bytes := []
  /-- History variable: the records its `send` accepted. -/
  sent : List (UInt8 × Bytes) := []
  /-- History variable: the reason it closed an established session with. -/
  closing : Option UInt16 := none
  /-- History variable: its own `close` or `on_timeout` ended it. -/
  ended : Bool := false
  deriving DecidableEq

/-- A call of an end's owner. -/
inductive End.Call where
  | send (kind : UInt8) (body : Bytes) (now : Instant)
  | keepalive (now : Instant)
  | onTimeout (now : Instant)
  | close (reason : UInt16)
  | takeOutput
  deriving DecidableEq

/-- The end behind a call. -/
def End.call (P : Primitives) (e : End) : End.Call → End
  | .send kind body now =>
      { e with
        session := (e.session.send P kind body now).2
        sent := if (e.session.send P kind body now).1 then e.sent ++ [(kind, body)] else e.sent }
  | .keepalive now => { e with session := e.session.keepalive P now }
  | .onTimeout now =>
      { e with
        session := e.session.onTimeout P now
        ended := e.ended ||
          (decide (e.session.state ≠ .closed) &&
            decide ((e.session.onTimeout P now).state = .closed)) }
  | .close reason =>
      { e with
        session := e.session.close P reason
        closing := if e.session.state = .established then some reason else e.closing
        ended := e.ended || decide (e.session.state ≠ .closed) }
  | .takeOutput =>
      { e with
        session := e.session.takeOutput.2
        wire := e.wire ++ e.session.takeOutput.1 }

/-- Two ends: the initiator's and the responder's. -/
structure Link where
  initiator : End
  responder : End
  deriving DecidableEq

namespace Link

/-- A call at one end, or the arrival of the next `n` bytes at one. -/
inductive Op where
  | initiator (call : End.Call)
  | responder (call : End.Call)
  | toInitiator (n : Nat) (now : Instant)
  | toResponder (n : Nat) (now : Instant)
  deriving DecidableEq

/-- The next `n` bytes of one end's wire arrive at the other. -/
def arrive (P : Primitives) (src dst : End) (n : Nat) (now : Instant) : End × End :=
  ({ src with wire := src.wire.drop n },
    { dst with session := dst.session.onBytes P (src.wire.take n) now })

/-- The link behind a step. -/
def step (P : Primitives) (l : Link) : Op → Link
  | .initiator call => { l with initiator := l.initiator.call P call }
  | .responder call => { l with responder := l.responder.call P call }
  | .toInitiator n now =>
      let (src, dst) := arrive P l.responder l.initiator n now
      { initiator := dst, responder := src }
  | .toResponder n now =>
      let (src, dst) := arrive P l.initiator l.responder n now
      { initiator := src, responder := dst }

/-- A link whose responder has read message 1. -/
def start (P : Primitives) (i r : Args) (cfgI cfgR : TcpSessionConfig) (nowI nowR : Instant)
    (ri rr : SecretKey) (padding : Vector UInt8 16) (toR : List (Bytes × Instant)) : Link where
  initiator := { session := (i.initiate P cfgI nowI ri padding).takeOutput.2 }
  responder := { session := (r.respond P cfgR nowR rr).deliver P toR }

end Link

/-- The records an owner has been told of. -/
def records (events : List TcpEvent) : List (UInt8 × Bytes) :=
  events.filterMap fun
    | .record kind body => some (kind, body)
    | _ => none

/-- What a link promises in one direction: the receiver is told of what was sent
and of nothing else, in order; it ends only by its own call or because the
sender closed; and once nothing is on its way to a receiver that has not ended
itself, it has been told of everything, the sender's close last. -/
structure Delivered (src dst : End) : Prop where
  ordered : records dst.session.events <+: src.sent
  unbroken : ∀ cause n, TcpEvent.closed cause n ∈ dst.session.events →
    dst.ended = true ∨
      cause = .peerNotice ∧ ∃ reason, src.closing = some reason ∧ n = reason.toNat
  complete : dst.ended = false → src.wire = [] → src.session.out = [] →
    records dst.session.events = src.sent ∧
      ∀ reason, src.closing = some reason →
        dst.session.events.getLast? = some (.closed .peerNotice reason.toNat)

/-! ## The invariant of one direction

A lane is what one direction consists of: the receiver's half and what it was
told, the bytes, the sender's half and what was sent.  Reading takes a frame off
its front, sending puts one on its end, and a receiver that has closed takes
nothing any more. -/

variable {P : Primitives}

/-- What a direction is set up with: message 2, what the initiator gets out of
it, and the limits. -/
structure Lane where
  message : Bytes
  split : Split
  maxRecord : Nat
  every : Nat

/-- The lane of a configuration. -/
def Lane.of (message : Bytes) (split : Split) (cfg : TcpSessionConfig) : Lane :=
  ⟨message, split, cfg.maxRecord, cfg.rekeyEvery⟩

/-- The initiator will accept message 2. -/
def Expects (P : Primitives) (L : Lane) (hs : Option HandshakeState) (peer : DevId) : Prop :=
  ∃ hs₁ plain hs₂, hs = some hs₁ ∧ hs₁.readMessage P L.message 256 = some (plain, hs₂) ∧
    claims plain peer = true ∧ hs₂.split P = L.split

/-- No event so far says that the session ended. -/
def Unended (events : List TcpEvent) : Prop := ∀ cause n, TcpEvent.closed cause n ∉ events

/-- The bytes ahead of a receiver at `h`, up to a sender at `v`. -/
structure Ahead (P : Primitives) (L : Lane) (v : Half) (sent : List (UInt8 × Bytes))
    (closing : Option UInt16) (h : Half) (events : List TcpEvent) (ahead : Bytes)
    (live : List Sealed) : Prop where
  keyed : h.cs.hasKey = true
  unended : Unended events
  fits : ∀ x ∈ live, x.Fits L.maxRecord ∧ x.Goes
  bytes : ahead = h.frames P L.every (live ++ closing.toList.map .close)
  reaches : h.after P L.every live = v
  told : sent = records events ++ live.filterMap Sealed.told

/-- A receiver (without its buffer) and all bytes on their way to it; `ended`
says that it ended itself. -/
inductive Receives (P : Primitives) (L : Lane) (v : Half) (sent : List (UInt8 × Bytes))
    (closing : Option UInt16) : Bool → TcpSession → Bytes → Prop where
  /-- The initiator has message 2 to read first. -/
  | waiting {s : TcpSession} {rest : Bytes} {live : List Sealed}
      (hstate : s.state = .handshaking) (hrole : s.initiator = true)
      (hreads : Expects P L s.hs s.peer)
      (hevents : s.events = []) (hrecv : s.recvRecords = 0)
      (hahead : Ahead P L v sent closing ⟨L.split.recv, 0⟩ [] rest live) :
      Receives P L v sent closing false s (beBytes 2 L.message.length ++ L.message ++ rest)
  | «open» {s : TcpSession} {ahead : Bytes} {live : List Sealed}
      (hstate : s.state = .established)
      (hahead : Ahead P L v sent closing s.recvHalf s.events ahead live) :
      Receives P L v sent closing false s ahead
  /-- It has read the sender's close. -/
  | told {s : TcpSession} {ahead : Bytes} {reason : UInt16} {before : List TcpEvent}
      (hstate : s.state = .closed) (hclosing : closing = some reason)
      (hevents : s.events = before ++ [.closed .peerNotice reason.toNat])
      (hbefore : Unended before) (hsent : records before = sent) :
      Receives P L v sent closing false s ahead
  | ended {s : TcpSession} {ahead : Bytes} (hstate : s.state = .closed)
      (hsent : records s.events <+: sent) :
      Receives P L v sent closing true s ahead

/-- A sender at half `v`. -/
inductive Sends (L : Lane) (v : Half) (closing : Option UInt16) (s : TcpSession) : Prop where
  | waiting (hstate : s.state = .handshaking) (hclosing : closing = none)
      (hsent : s.sentRecords = 0) (hhalf : v = ⟨L.split.send, 0⟩)
  | «open» (hstate : s.state = .established) (hclosing : closing = none)
      (hhalf : v = s.sendHalf)
  | closed (hstate : s.state = .closed)

@[simp] theorem records_append (xs ys : List TcpEvent) :
    records (xs ++ ys) = records xs ++ records ys := List.filterMap_append

@[simp] theorem records_closed (cause : CloseCause) (n : Nat) :
    records [.closed cause n] = [] := rfl

theorem Unended.append {xs ys : List TcpEvent} (hx : Unended xs) (hy : Unended ys) :
    Unended (xs ++ ys) := by
  intro cause n hmem
  rcases List.mem_append.mp hmem with h | h
  · exact hx cause n h
  · exact hy cause n h

section Direction

variable {L : Lane} {v : Half} {sent : List (UInt8 × Bytes)} {closing : Option UInt16} {h : Half}
  {events : List TcpEvent} {ahead : Bytes} {live : List Sealed} {e : Bool} {s : TcpSession}

theorem Expects.onMessage2 (h : Expects P L s.hs s.peer) (now : Instant) :
    s.onMessage2 P L.message now = s.finish L.split now := by
  obtain ⟨hs₁, plain, hs₂, hhs, hread, hclaims, hsplit⟩ := h
  unfold TcpSession.onMessage2
  rw [hhs, Option.bind_some, hread]
  dsimp only
  rw [hclaims, hsplit]
  rfl

/-- With nothing on its way the two halves are one. -/
theorem ahead_nil (hkey : h.cs.hasKey = true) (hun : Unended events)
    (htold : records events = []) : Ahead P L h [] none h events [] [] where
  keyed := hkey
  unended := hun
  fits := fun _ hmem => (List.not_mem_nil hmem).elim
  bytes := rfl
  reaches := rfl
  told := by rw [htold]; rfl

/-! ### The sender seals -/

theorem Ahead.seal (ha : Ahead P L v sent none h events ahead live) {x : Sealed}
    (hfits : x.Fits L.maxRecord) (hgoes : x.Goes) :
    Ahead P L (v.next P L.every) (sent ++ x.told.toList) none h events (ahead ++ v.frame P x)
      (live ++ [x]) where
  keyed := ha.keyed
  unended := ha.unended
  fits := by
    intro y hy
    rcases List.mem_append.mp hy with hy | hy
    · exact ha.fits y hy
    · rw [List.mem_singleton.mp hy]
      exact ⟨hfits, hgoes⟩
  bytes := by
    rw [ha.bytes, Option.toList_none, List.map_nil, List.append_nil, List.append_nil,
      Half.frames_append, ha.reaches, Half.frames_singleton]
  reaches := by
    rw [Half.after_append, ha.reaches]
    rfl
  told := by
    rw [ha.told, List.filterMap_append, List.append_assoc]
    cases x <;> rfl

theorem Ahead.close (ha : Ahead P L v sent none h events ahead live) (reason : UInt16) :
    Ahead P L v sent (some reason) h events (ahead ++ v.frame P (.close reason)) live where
  keyed := ha.keyed
  unended := ha.unended
  fits := ha.fits
  bytes := by
    rw [ha.bytes, Option.toList_none, List.map_nil, List.append_nil, Option.toList_some,
      List.map_singleton, Half.frames_append, ha.reaches, Half.frames_singleton]
  reaches := ha.reaches
  told := ha.told

theorem Receives.seal (hr : Receives P L v sent none e s ahead) {x : Sealed}
    (hfits : x.Fits L.maxRecord) (hgoes : x.Goes) :
    Receives P L (v.next P L.every) (sent ++ x.told.toList) none e s
      (ahead ++ v.frame P x) := by
  cases hr with
  | waiting hstate hrole hreads hevents hrecv hahead =>
      rw [List.append_assoc]
      exact .waiting hstate hrole hreads hevents hrecv (hahead.seal hfits hgoes)
  | «open» hstate hahead => exact .open hstate (hahead.seal hfits hgoes)
  | told hstate hclosing hevents hbefore hsent => cases hclosing
  | ended hstate hsent => exact .ended hstate (hsent.trans (List.prefix_append _ _))

theorem Receives.close (hr : Receives P L v sent none e s ahead) (reason : UInt16) :
    Receives P L v sent (some reason) e s (ahead ++ v.frame P (.close reason)) := by
  cases hr with
  | waiting hstate hrole hreads hevents hrecv hahead =>
      rw [List.append_assoc]
      exact .waiting hstate hrole hreads hevents hrecv (hahead.close reason)
  | «open» hstate hahead => exact .open hstate (hahead.close reason)
  | told hstate hclosing hevents hbefore hsent => cases hclosing
  | ended hstate hsent => exact .ended hstate hsent

/-! ### The receiver reads -/

/-- A record that goes on, read: the receiver moves on by one. -/
theorem Ahead.read {x : Sealed} {rest : Bytes}
    (ha : Ahead P L v sent closing h events (h.frame P x ++ rest) (x :: live))
    {t : List TcpEvent} (htold : records t = x.told.toList) (hun : Unended t) :
    Ahead P L v sent closing (h.next P L.every) (events ++ t) rest live where
  keyed := Half.next_hasKey L.every ha.keyed
  unended := ha.unended.append hun
  fits := fun y hy => ha.fits y (List.mem_cons_of_mem x hy)
  bytes := List.append_cancel_left ha.bytes
  reaches := ha.reaches
  told := by
    rw [ha.told, records_append, htold, List.append_assoc]
    cases x <;> rfl

/-- What a receiver that still reads does with the next frame. -/
inductive ReadStep (L : Lane) (s t : TcpSession) : Prop where
  | finished (hstate : s.state = .handshaking) (now : Instant)
      (heq : t = s.finish L.split now)
  | record (hstate : s.state = .established) (cs : CipherState) (n : Nat) (now : Instant)
      (told : List TcpEvent)
      (heq : t = { s with
        recvCs := cs, recvRecords := n, lastRecv := now, events := s.events ++ told })
  | closed (hstate : t.state = .closed) (hout : t.out = s.out) (hcfg : t.cfg = s.cfg)

/-- The limits a session has to keep for its lane. -/
structure Lane.Limits (L : Lane) (cfg : TcpSessionConfig) : Prop where
  maxRecord : cfg.maxRecord = L.maxRecord
  every : cfg.rekeyEvery = L.every
  notice : 2 ≤ L.maxRecord
  width : L.maxRecord + 1 + kTagLen < 2 ^ 32
  message : L.message.length < 256

theorem Receives.read_waiting (hlim : L.Limits s.cfg) (hstate : s.state = .handshaking)
    (hrole : s.initiator = true)
    (hreads : Expects P L s.hs s.peer)
    (hevents : s.events = []) (hrecv : s.recvRecords = 0) {rest : Bytes}
    (hahead : Ahead P L v sent closing ⟨L.split.recv, 0⟩ [] rest live) {f : Frame} {r : Bytes}
    (hnext : s.nextFrame (beBytes 2 L.message.length ++ L.message ++ rest) = some (f, r))
    (now : Instant) :
    ReadStep L s (s.act P f now) ∧
      Receives P L v sent closing false ((s.act P f now).withIn []) r := by
  rw [nextFrame_message hstate hlim.message (fun h => by rw [hrole] at h; cases h)] at hnext
  obtain ⟨rfl, rfl⟩ := Prod.mk.inj (Option.some.inj hnext)
  have hact : s.act P (.message L.message) now = s.finish L.split now := by
    unfold act
    rw [hrole]
    exact hreads.onMessage2 now
  rw [hact]
  refine ⟨.finished hstate now rfl, ?_⟩
  have hhalf : ((s.finish L.split now).withIn []).recvHalf = ⟨L.split.recv, 0⟩ := by
    rw [← hrecv]
    rfl
  have hev : ((s.finish L.split now).withIn []).events = [.established] := by
    change s.events ++ [.established] = _
    rw [hevents]
    rfl
  have hopen : Ahead P L v sent closing ⟨L.split.recv, 0⟩ [.established] rest live :=
    ⟨hahead.keyed, fun cause n hmem => by simp at hmem, hahead.fits, hahead.bytes,
      hahead.reaches, hahead.told⟩
  rw [← hhalf, ← hev] at hopen
  exact .open rfl hopen

theorem Receives.read_open (hP : P.aead.Lawful) (hlim : L.Limits s.cfg)
    (hstate : s.state = .established)
    (hahead : Ahead P L v sent closing s.recvHalf s.events ahead live) {f : Frame} {r : Bytes}
    (hnext : s.nextFrame ahead = some (f, r)) (now : Instant) :
    ReadStep L s (s.act P f now) ∧
      Receives P L v sent closing false ((s.act P f now).withIn []) r := by
  have hbytes := hahead.bytes
  have hnotice : 2 ≤ s.cfg.maxRecord := by rw [hlim.maxRecord]; exact hlim.notice
  have hwidth : s.cfg.maxRecord + 1 + kTagLen < 2 ^ 32 := by
    rw [hlim.maxRecord]
    exact hlim.width
  cases live with
  | nil =>
      cases closing with
      | none =>
          rw [hbytes] at hnext
          cases (nextFrame_nil s).symm.trans hnext
      | some reason =>
          -- the sender's close, behind which nothing comes
          have hframe : ahead = s.recvHalf.frame P (.close reason) ++ [] := hbytes
          have hfits : (Sealed.close reason).Fits s.cfg.maxRecord := trivial
          rw [hframe, nextFrame_frame hP hstate hnotice hwidth _ hfits] at hnext
          obtain ⟨rfl, rfl⟩ := Prod.mk.inj (Option.some.inj hnext)
          have hact : s.act P (.record (s.recvHalf.cipher P (.close reason))) now =
              s.onRecord P (s.recvHalf.cipher P (.close reason)) now := rfl
          rw [hact, onRecord_frame hP hahead.keyed, handleRecord_close]
          refine ⟨.closed rfl rfl rfl, .told rfl rfl rfl hahead.unended ?_⟩
          have htold := hahead.told
          rw [List.filterMap_nil, List.append_nil] at htold
          exact htold.symm
  | cons x xs =>
      obtain ⟨hfits, hgoes⟩ := hahead.fits x List.mem_cons_self
      have hframe : ahead = s.recvHalf.frame P x ++
          (s.recvHalf.next P L.every).frames P L.every (xs ++ closing.toList.map .close) := hbytes
      rw [hframe] at hahead
      rw [hframe, nextFrame_frame hP hstate hnotice hwidth _
        (by rw [hlim.maxRecord]; exact hfits)] at hnext
      obtain ⟨rfl, rfl⟩ := Prod.mk.inj (Option.some.inj hnext)
      have hact : s.act P (.record (s.recvHalf.cipher P x)) now =
          s.onRecord P (s.recvHalf.cipher P x) now := rfl
      rw [hact, onRecord_frame hP hahead.keyed, hlim.every]
      cases x with
      | keepalive =>
          rw [handleRecord_keepalive]
          have hread := hahead.read (t := []) rfl (fun _ _ hmem => by cases hmem)
          rw [List.append_nil] at hread
          exact ⟨.record hstate _ _ now [] (by rw [List.append_nil]), .open hstate hread⟩
      | user kind body =>
          rw [handleRecord_user _ hfits.1]
          have hread := hahead.read (t := [.record kind body]) rfl
            (fun _ _ hmem => by simp at hmem)
          exact ⟨.record hstate _ _ now _ rfl, .open hstate hread⟩
      | close reason => exact absurd hgoes id

/-- One frame read. -/
theorem Receives.read (hP : P.aead.Lawful) (hlim : L.Limits s.cfg)
    (hr : Receives P L v sent closing e s ahead) (hopen : s.state ≠ .closed) {f : Frame}
    {r : Bytes} (hnext : s.nextFrame ahead = some (f, r)) (now : Instant) :
    ReadStep L s (s.act P f now) ∧
      Receives P L v sent closing e ((s.act P f now).withIn []) r := by
  cases hr with
  | waiting hstate hrole hreads hevents hrecv hahead =>
      exact read_waiting hlim hstate hrole hreads hevents hrecv hahead hnext now
  | «open» hstate hahead => exact read_open hP hlim hstate hahead hnext now
  | told hstate hclosing hevents hbefore hsent => exact absurd hstate hopen
  | ended hstate hsent => exact absurd hstate hopen

/-- A closed receiver's bytes do not matter. -/
theorem Receives.of_closed (hr : Receives P L v sent closing e s ahead) (hclosed : s.state = .closed)
    (other : Bytes) : Receives P L v sent closing e s other := by
  cases hr with
  | waiting hstate hrole hreads hevents hrecv hahead =>
      rw [hstate] at hclosed
      cases hclosed
  | «open» hstate hahead =>
      rw [hstate] at hclosed
      cases hclosed
  | told hstate hclosing hevents hbefore hsent =>
      exact .told hstate hclosing hevents hbefore hsent
  | ended hstate hsent => exact .ended hstate hsent

/-- Reading does not touch the sending half. -/
theorem Sends.read {t : TcpSession} (hs : Sends L v closing s) (hstep : ReadStep L s t) :
    Sends L v closing (t.withIn []) ∧ t.out = s.out ∧ t.cfg = s.cfg := by
  cases hstep with
  | finished hstate now heq =>
      subst heq
      cases hs with
      | waiting hstate' hclosing hsent hhalf =>
          refine ⟨.open rfl hclosing ?_, rfl, rfl⟩
          rw [hhalf, ← hsent]
          rfl
      | «open» hstate' hclosing hhalf =>
          rw [hstate] at hstate'
          cases hstate'
      | closed hstate' =>
          rw [hstate] at hstate'
          cases hstate'
  | record hstate cs n now told heq =>
      subst heq
      cases hs with
      | waiting hstate' hclosing hsent hhalf =>
          rw [hstate] at hstate'
          cases hstate'
      | «open» hstate' hclosing hhalf => exact ⟨.open hstate hclosing hhalf, rfl, rfl⟩
      | closed hstate' =>
          rw [hstate] at hstate'
          cases hstate'
  | closed hstate hout hcfg => exact ⟨.closed hstate, hout, hcfg⟩

/-- What a receiver's predicate reads of it. -/
theorem Receives.congr (hr : Receives P L v sent closing e s ahead) {t : TcpSession}
    (hstate : t.state = s.state) (hrole : t.initiator = s.initiator) (hhs : t.hs = s.hs)
    (hpeer : t.peer = s.peer) (hevents : t.events = s.events) (hrecv : t.recvHalf = s.recvHalf) :
    Receives P L v sent closing e t ahead := by
  cases hr with
  | waiting hst hrl hreads hev hrc hahead =>
      rw [← hhs, ← hpeer] at hreads
      exact .waiting (hstate.trans hst) (hrole.trans hrl) hreads (hevents.trans hev)
        ((congrArg Half.n hrecv).trans hrc) hahead
  | «open» hst hahead =>
      rw [← hevents, ← hrecv] at hahead
      exact .open (hstate.trans hst) hahead
  | told hst hclosing hev hbefore hsent =>
      exact .told (hstate.trans hst) hclosing (hevents.trans hev) hbefore hsent
  | ended hst hsent =>
      rw [← hevents] at hsent
      exact .ended (hstate.trans hst) hsent

/-- Whatever a receiver was told, it was told in order. -/
theorem Receives.ordered (hr : Receives P L v sent closing e s ahead) :
    records s.events <+: sent := by
  cases hr with
  | waiting hst hrl hreads hev hrc hahead =>
      rw [hev]
      exact List.nil_prefix
  | «open» hst hahead =>
      rw [hahead.told]
      exact List.prefix_append _ _
  | told hst hclosing hev hbefore hsent =>
      have htold : records s.events = sent := by
        rw [hev, records_append, hsent, records_closed, List.append_nil]
      exact htold ▸ List.prefix_rfl
  | ended hst hsent => exact hsent

/-- A receiver ends by its own call or by the sender's close. -/
theorem Receives.unbroken (hr : Receives P L v sent closing e s ahead) {cause : CloseCause}
    {n : Nat} (hmem : TcpEvent.closed cause n ∈ s.events) :
    e = true ∨ cause = .peerNotice ∧ ∃ reason, closing = some reason ∧ n = reason.toNat := by
  cases hr with
  | waiting hst hrl hreads hev hrc hahead =>
      rw [hev] at hmem
      cases hmem
  | «open» hst hahead => exact absurd hmem (hahead.unended cause n)
  | told hst hclosing hev hbefore hsent =>
      rw [hev] at hmem
      rcases List.mem_append.mp hmem with hmem | hmem
      · exact absurd hmem (hbefore cause n)
      · obtain ⟨rfl, rfl⟩ := TcpEvent.closed.inj (List.mem_singleton.mp hmem)
        exact .inr ⟨rfl, _, hclosing, rfl⟩
  | ended hst hsent => exact .inl rfl

/-- Where no frame is found, no record is on its way. -/
theorem Ahead.nothing (hP : P.aead.Lawful) (hlim : L.Limits s.cfg)
    (hstate : s.state = .established) (ha : Ahead P L v sent closing h events ahead live)
    (hnone : s.nextFrame ahead = none) : live = [] ∧ closing = none := by
  have hnil : live ++ closing.toList.map Sealed.close = [] := by
    rcases hlist : live ++ closing.toList.map Sealed.close with _ | ⟨r, rs⟩
    · rfl
    have hfits : r.Fits s.cfg.maxRecord := by
      have hmem : r ∈ live ++ closing.toList.map Sealed.close := by
        rw [hlist]
        exact List.mem_cons_self
      rcases List.mem_append.mp hmem with hmem | hmem
      · rw [hlim.maxRecord]
        exact (ha.fits r hmem).1
      · obtain ⟨reason, -, rfl⟩ := List.mem_map.mp hmem
        trivial
    rw [ha.bytes, hlist, Half.frames, nextFrame_frame hP hstate
      (by rw [hlim.maxRecord]; exact hlim.notice)
      (by rw [hlim.maxRecord]; exact hlim.width) _ hfits] at hnone
    cases hnone
  obtain ⟨hlive, hclosing⟩ := List.append_eq_nil_iff.mp hnil
  refine ⟨hlive, ?_⟩
  cases closing with
  | none => rfl
  | some reason => cases hclosing

/-- A receiver that has read all there is was told all there was. -/
theorem Receives.complete (hP : P.aead.Lawful) (hlim : L.Limits s.cfg)
    (hr : Receives P L v sent closing false s ahead) (hnone : s.nextFrame ahead = none) :
    records s.events = sent ∧ ∀ reason, closing = some reason →
      s.events.getLast? = some (.closed .peerNotice reason.toNat) := by
  cases hr with
  | waiting hst hrl hreads hev hrc hahead =>
      rw [nextFrame_message hst hlim.message (fun h => by rw [hrl] at h; cases h)] at hnone
      cases hnone
  | «open» hst hahead =>
      obtain ⟨rfl, rfl⟩ := hahead.nothing hP hlim hst hnone
      refine ⟨?_, fun reason hreason => by cases hreason⟩
      rw [hahead.told, List.filterMap_nil, List.append_nil]
  | told hst hclosing hev hbefore hsent =>
      rw [hev]
      refine ⟨?_, ?_⟩
      · rw [records_append, records_closed, List.append_nil, hsent]
      · intro reason hreason
        rw [hclosing] at hreason
        cases hreason
        exact List.getLast?_concat

end Direction

/-! ## Calls

What a call of an end does to the lane it receives on and to the lane it sends
on. -/

/-- What a call does to its end. -/
inductive CallStep (P : Primitives) (x x' : End) : Prop where
  | quiet (hsession : x'.session = { x.session with out := x'.session.out })
      (hbytes : x'.wire ++ x'.session.out = x.wire ++ x.session.out) (hsent : x'.sent = x.sent)
      (hclosing : x'.closing = x.closing) (hended : x'.ended = x.ended)
  | sealed (r : Sealed) (now : Instant) (hstate : x.session.state = .established)
      (hfits : r.Fits x.session.cfg.maxRecord) (hgoes : r.Goes)
      (heq : x' = { x with
        session := { x.session.sealRecord P r.kind r.body with lastSent := now }
        sent := x.sent ++ r.told.toList })
  | failed (cause : CloseCause) (hopen : x.session.state ≠ .closed)
      (hstate : x'.session.state = .closed) (hcfg : x'.session.cfg = x.session.cfg)
      (hout : x'.session.out = x.session.out)
      (hevents : x'.session.events = x.session.events ++ [.closed cause 0])
      (hwire : x'.wire = x.wire) (hsent : x'.sent = x.sent) (hclosing : x'.closing = x.closing)
      (hended : x'.ended = true)
  | closed (reason : UInt16) (hopen : x.session.state = .established)
      (hstate : x'.session.state = .closed) (hcfg : x'.session.cfg = x.session.cfg)
      (hout : x'.session.out =
        (x.session.sealRecord P (Sealed.close reason).kind (Sealed.close reason).body).out)
      (hevents : x'.session.events = x.session.events ++ [.closed .local 0])
      (hwire : x'.wire = x.wire) (hsent : x'.sent = x.sent)
      (hclosing : x'.closing = some reason) (hended : x'.ended = true)

theorem CallStep.of_eq {x x' : End} (h : x' = x) : CallStep P x x' := by
  subst h
  exact .quiet rfl rfl rfl rfl rfl

theorem callStep_send (x : End) (kind : UInt8) (body : Bytes) (now : Instant) :
    CallStep P x (x.call P (.send kind body now)) := by
  unfold End.call TcpSession.send
  dsimp only
  split
  · exact .of_eq rfl
  · rename_i hok
    simp only [Bool.or_eq_true, decide_eq_true_eq, not_or, not_not] at hok
    obtain ⟨⟨hstate, hkind⟩, hlen⟩ := hok
    exact .sealed (.user kind body) now hstate ⟨UInt8.not_lt.mp hkind, Nat.not_lt.mp hlen⟩ trivial
      rfl

theorem callStep_keepalive (x : End) (now : Instant) :
    CallStep P x (x.call P (.keepalive now)) := by
  unfold End.call TcpSession.keepalive
  dsimp only
  split
  · exact .of_eq rfl
  · rename_i hstate
    refine .sealed .keepalive now (not_not.mp hstate) trivial trivial ?_
    simp only [Sealed.kind, Sealed.body, Sealed.told, Option.toList_none, List.append_nil]

theorem callStep_fail {x x' : End} (hopen : x.session.state ≠ .closed) (cause : CloseCause)
    (heq : x' = { x with session := x.session.fail cause, ended := true }) :
    CallStep P x x' := by
  obtain ⟨hout, hevents⟩ := fail_of_open hopen cause
  have hcfg : (x.session.fail cause).cfg = x.session.cfg := by
    unfold fail
    split
    · rfl
    · rfl
  subst heq
  exact .failed cause hopen (fail_state _ _) hcfg hout hevents rfl rfl rfl rfl

theorem callStep_onTimeout (x : End) (now : Instant) :
    CallStep P x (x.call P (.onTimeout now)) := by
  cases hstate : x.session.state with
  | closed =>
      have hsame : x.session.onTimeout P now = x.session := by
        unfold TcpSession.onTimeout
        rw [hstate]
      refine .of_eq ?_
      simp [End.call, hsame, hstate]
  | handshaking =>
      rcases Decidable.em (now - x.session.started ≥ x.session.cfg.handshakeTimeout) with hlate | hok
      · have hfail : x.session.onTimeout P now = x.session.fail .timedOut := by
          unfold TcpSession.onTimeout
          rw [hstate]
          exact if_pos hlate
        refine callStep_fail (by rw [hstate]; exact TcpState.noConfusion) .timedOut ?_
        simp [End.call, hfail, hstate, fail_state]
      · have hsame : x.session.onTimeout P now = x.session := by
          unfold TcpSession.onTimeout
          rw [hstate]
          exact if_neg hok
        refine .of_eq ?_
        simp [End.call, hsame, hstate]
  | established =>
      rcases Decidable.em (now - x.session.lastRecv ≥ x.session.cfg.idleTimeout) with hidle | hok
      · have hfail : x.session.onTimeout P now = x.session.fail .timedOut := by
          unfold TcpSession.onTimeout
          rw [hstate]
          exact if_pos hidle
        refine callStep_fail (by rw [hstate]; exact TcpState.noConfusion) .timedOut ?_
        simp [End.call, hfail, hstate, fail_state]
      rcases Decidable.em (now - x.session.lastSent ≥ x.session.cfg.keepalive) with hquiet | hbusy
      · have hseal : x.session.onTimeout P now =
            { x.session.sealRecord P kKeepalive [] with lastSent := now } := by
          unfold TcpSession.onTimeout
          rw [hstate]
          dsimp only
          rw [if_neg hok, if_pos hquiet]
        have hopen : ({ x.session.sealRecord P kKeepalive [] with lastSent := now } :
            TcpSession).state = .established := hstate
        refine .sealed .keepalive now hstate trivial trivial ?_
        simp [End.call, hseal, hopen, Sealed.kind, Sealed.body, Sealed.told]
      · have hsame : x.session.onTimeout P now = x.session := by
          unfold TcpSession.onTimeout
          rw [hstate]
          dsimp only
          rw [if_neg hok, if_neg hbusy]
        refine .of_eq ?_
        simp [End.call, hsame, hstate]

theorem callStep_close (x : End) (reason : UInt16) :
    CallStep P x (x.call P (.close reason)) := by
  cases hstate : x.session.state with
  | closed =>
      have hsame : x.session.close P reason = x.session := if_pos hstate
      refine .of_eq ?_
      simp [End.call, hsame, hstate]
  | handshaking =>
      refine .failed .local (by rw [hstate]; exact TcpState.noConfusion) ?_ ?_ ?_ ?_ rfl rfl ?_ ?_
      all_goals simp [End.call, TcpSession.close, hstate]
  | established =>
      refine .closed reason hstate ?_ ?_ ?_ ?_ rfl rfl ?_ ?_
      all_goals simp [End.call, TcpSession.close, hstate, Sealed.kind, Sealed.body]
      all_goals rfl

theorem callStep_takeOutput (x : End) : CallStep P x (x.call P .takeOutput) :=
  .quiet rfl (by simp [End.call, TcpSession.takeOutput]) rfl rfl rfl

/-- Every call does one of these. -/
theorem callStep (x : End) (c : End.Call) : CallStep P x (x.call P c) := by
  cases c with
  | send kind body now => exact callStep_send x kind body now
  | keepalive now => exact callStep_keepalive x now
  | onTimeout now => exact callStep_onTimeout x now
  | close reason => exact callStep_close x reason
  | takeOutput => exact callStep_takeOutput x

/-! ## Flows

A lane together with the sessions at its ends. -/

/-- One direction of a link. -/
structure Flow (P : Primitives) (L : Lane) (x y : End) : Prop where
  half : ∃ v : Half, v.cs.hasKey = true ∧ Sends L v x.closing x.session ∧
    Receives P L v x.sent x.closing y.ended (y.session.withIn [])
      (y.session.in_ ++ (x.wire ++ x.session.out))

/-- What holds of an end by itself. -/
structure EndOk (L : Lane) (x : End) : Prop where
  limits : L.Limits x.session.cfg
  parsed : x.session.Parsed

section Flows

variable {L : Lane} {x x' y : End}

/-- A sender's state, when a call needs it established. -/
theorem Sends.of_established {v : Half} {closing : Option UInt16} {s : TcpSession}
    (hs : Sends L v closing s) (hstate : s.state = .established) :
    closing = none ∧ v = s.sendHalf := by
  cases hs with
  | waiting hstate' hclosing hsent hhalf =>
      rw [hstate] at hstate'
      cases hstate'
  | «open» hstate' hclosing hhalf => exact ⟨hclosing, hhalf⟩
  | closed hstate' =>
      rw [hstate] at hstate'
      cases hstate'

theorem Sends.congr {v : Half} {closing : Option UInt16} {s t : TcpSession}
    (hs : Sends L v closing s) (hstate : t.state = s.state) (hhalf : t.sendHalf = s.sendHalf) :
    Sends L v closing t := by
  cases hs with
  | waiting hst hclosing hsent hv =>
      exact .waiting (hstate.trans hst) hclosing ((congrArg Half.n hhalf).trans hsent) hv
  | «open» hst hclosing hv => exact .open (hstate.trans hst) hclosing (hv.trans hhalf.symm)
  | closed hst => exact .closed (hstate.trans hst)

/-- A call at the sender. -/
theorem Flow.call_sender (hstep : CallStep P x x') (hok : EndOk L x) (hf : Flow P L x y) :
    Flow P L x' y := by
  obtain ⟨v, hkey, hsends, hrecv⟩ := hf.half
  cases hstep with
  | quiet hsession hbytes hsent hclosing hended =>
      refine ⟨v, hkey, ?_, ?_⟩
      · rw [hclosing, hsession]
        exact hsends.congr rfl rfl
      · rw [hsent, hclosing, hbytes]
        exact hrecv
  | sealed r now hstate hfits hgoes heq =>
      subst heq
      obtain ⟨hclosing, rfl⟩ := hsends.of_established hstate
      rw [hok.limits.maxRecord] at hfits
      rw [hclosing] at hrecv
      have hseal := hrecv.seal hfits hgoes
      refine ⟨x.session.sendHalf.next P L.every, Half.next_hasKey _ hkey, ?_, ?_⟩
      · refine .open ?_ hclosing ?_
        · rw [sealRecord_eq hkey]
          exact hstate
        · rw [sealRecord_eq hkey, hok.limits.every]
          rfl
      · rw [sealRecord_eq hkey]
        dsimp only
        rw [hclosing, ← List.append_assoc x.wire, ← List.append_assoc y.session.in_]
        exact hseal
  | failed cause hopen hstate hcfg hout hevents hwire hsent hclosing hended =>
      refine ⟨v, hkey, .closed hstate, ?_⟩
      rw [hsent, hclosing, hwire, hout]
      exact hrecv
  | closed reason hopen hstate hcfg hout hevents hwire hsent hclosing hended =>
      obtain ⟨hnone, rfl⟩ := hsends.of_established hopen
      rw [hnone] at hrecv
      have hclose := hrecv.close reason
      refine ⟨x.session.sendHalf, hkey, .closed hstate, ?_⟩
      rw [sealRecord_eq hkey] at hout
      rw [hsent, hclosing, hwire, hout, ← List.append_assoc x.wire,
        ← List.append_assoc y.session.in_]
      exact hclose

/-- A call at the receiver. -/
theorem Flow.call_receiver (hstep : CallStep P x x') (hf : Flow P L y x) : Flow P L y x' := by
  obtain ⟨v, hkey, hsends, hrecv⟩ := hf.half
  refine ⟨v, hkey, hsends, ?_⟩
  cases hstep with
  | quiet hsession hbytes hsent hclosing hended =>
      rw [hended, hsession]
      exact hrecv.congr rfl rfl rfl rfl rfl rfl
  | sealed r now hstate hfits hgoes heq =>
      subst heq
      exact hrecv.congr rfl rfl rfl rfl rfl rfl
  | failed cause hopen hstate hcfg hout hevents hwire hsent hclosing hended =>
      rw [hended]
      refine .ended hstate ?_
      rw [withIn_events, hevents, records_append, records_closed, List.append_nil]
      exact hrecv.ordered
  | closed reason hopen hstate hcfg hout hevents hwire hsent hclosing hended =>
      rw [hended]
      refine .ended hstate ?_
      rw [withIn_events, hevents, records_append, records_closed, List.append_nil]
      exact hrecv.ordered

/-- Bytes arrive: what they do to the receiver of one direction, which sends in
the other. -/
theorem onBytes_flow (hP : P.aead.Lawful) {v w : Half} {sent : List (UInt8 × Bytes)}
    {closing closing' : Option UInt16} {e : Bool} {s : TcpSession} (hlim : L.Limits s.cfg)
    {bytes rest : Bytes} (now : Instant)
    (hr : Receives P L v sent closing e (s.withIn []) (s.in_ ++ (bytes ++ rest)))
    (hs : Sends L w closing' s) :
    Receives P L v sent closing e ((s.onBytes P bytes now).withIn [])
        ((s.onBytes P bytes now).in_ ++ rest) ∧
      Sends L w closing' (s.onBytes P bytes now) ∧ (s.onBytes P bytes now).out = s.out ∧
      (s.onBytes P bytes now).cfg = s.cfg := by
  have hrun := onBytes_invariant (P := P) (s := s)
    (I := fun t ahead => Receives P L v sent closing e t ahead ∧ Sends L w closing' t ∧
      t.out = s.out ∧ t.cfg = s.cfg) ?_ ?_ now ⟨hr, hs.congr rfl rfl, rfl, rfl⟩
  · exact ⟨hrun.1, hrun.2.1.congr rfl rfl, hrun.2.2.1, hrun.2.2.2⟩
  · rintro t ahead other hclosed ⟨hr, hs⟩
    exact ⟨hr.of_closed hclosed other, hs⟩
  · rintro t ahead f r now hopen ⟨hr, hs, hout, hcfg⟩ hnext
    obtain ⟨hstep, hr'⟩ := hr.read hP (by rw [hcfg]; exact hlim) hopen hnext now
    obtain ⟨hs', hout', hcfg'⟩ := hs.read hstep
    exact ⟨hr', hs', hout'.trans hout, hcfg'.trans hcfg⟩

theorem Flow.arrive (hP : P.aead.Lawful) (hok : EndOk L y) (hxy : Flow P L x y)
    (hyx : Flow P L y x) (n : Nat) (now : Instant) :
    Flow P L (Link.arrive P x y n now).1 (Link.arrive P x y n now).2 ∧
      Flow P L (Link.arrive P x y n now).2 (Link.arrive P x y n now).1 ∧
      EndOk L (Link.arrive P x y n now).2 := by
  obtain ⟨v, hkey, hsends, hrecv⟩ := hxy.half
  obtain ⟨w, hkey', hsends', hrecv'⟩ := hyx.half
  rw [← List.take_append_drop n x.wire, List.append_assoc] at hrecv
  obtain ⟨hr, hs, hout, hcfg⟩ := onBytes_flow hP hok.limits now hrecv hsends'
  refine ⟨⟨v, hkey, hsends, hr⟩, ⟨w, hkey', hs, ?_⟩, ?_, parsed_onBytes _ _ _⟩
  · unfold Link.arrive
    dsimp only
    rw [hout]
    exact hrecv'
  · unfold Link.arrive
    dsimp only
    rw [hcfg]
    exact hok.limits

end Flows

/-! ## Runs of a link

Both flows, and that either end keeps to its half. -/

/-- The invariant of a link. -/
structure LinkInv (P : Primitives) (L : Lane) (l : Link) : Prop where
  toResponder : Flow P L l.initiator l.responder
  toInitiator : Flow P L l.responder l.initiator
  initiator : EndOk L l.initiator
  responder : EndOk L l.responder

theorem EndOk.call {L : Lane} {x x' : End} (hok : EndOk L x) (hstep : CallStep P x x') :
    EndOk L x' := by
  cases hstep with
  | quiet hsession hbytes hsent hclosing hended =>
      refine ⟨?_, ?_⟩
      · rw [hsession]
        exact hok.limits
      · rw [hsession]
        exact hok.parsed.congr rfl rfl rfl rfl
  | sealed r now hstate hfits hgoes heq =>
      subst heq
      exact ⟨hok.limits, hok.parsed.congr rfl rfl rfl rfl⟩
  | failed cause hopen hstate hcfg hout hevents hwire hsent hclosing hended =>
      exact ⟨by rw [hcfg]; exact hok.limits, parsed_of_closed hstate⟩
  | closed reason hopen hstate hcfg hout hevents hwire hsent hclosing hended =>
      exact ⟨by rw [hcfg]; exact hok.limits, parsed_of_closed hstate⟩

theorem LinkInv.step {L : Lane} {l : Link} (hP : P.aead.Lawful) (hinv : LinkInv P L l)
    (op : Link.Op) : LinkInv P L (l.step P op) := by
  cases op with
  | initiator call =>
      have hstep := callStep (P := P) l.initiator call
      exact ⟨hinv.toResponder.call_sender hstep hinv.initiator,
        hinv.toInitiator.call_receiver hstep, hinv.initiator.call hstep, hinv.responder⟩
  | responder call =>
      have hstep := callStep (P := P) l.responder call
      exact ⟨hinv.toResponder.call_receiver hstep,
        hinv.toInitiator.call_sender hstep hinv.responder, hinv.initiator,
        hinv.responder.call hstep⟩
  | toInitiator n now =>
      obtain ⟨hri, hir, hok⟩ :=
        hinv.toInitiator.arrive hP hinv.initiator hinv.toResponder n now
      exact ⟨hir, hri, hok, hinv.responder.limits, hinv.responder.parsed⟩
  | toResponder n now =>
      obtain ⟨hir, hri, hok⟩ :=
        hinv.toResponder.arrive hP hinv.responder hinv.toInitiator n now
      exact ⟨hir, hri, ⟨hinv.initiator.limits, hinv.initiator.parsed⟩, hok⟩

/-- The promise of a direction, read off its invariant. -/
theorem Flow.delivered {L : Lane} {x y : End} (hP : P.aead.Lawful) (hf : Flow P L x y)
    (hok : EndOk L y) : Delivered x y := by
  obtain ⟨v, -, -, hrecv⟩ := hf.half
  refine ⟨hrecv.ordered, fun cause n hmem => hrecv.unbroken hmem, ?_⟩
  intro hended hwire hout
  rw [hwire, hout, List.append_nil, List.append_nil, hended] at hrecv
  have hself := hrecv.congr (t := y.session) rfl rfl rfl rfl rfl rfl
  exact hself.complete hP hok.limits hok.parsed

section Start

variable {i r : Args} {ri rr : SecretKey} {shared : PublicKey} {padding : Vector UInt8 16}
  {cfgI cfgR : TcpSessionConfig} (nowI nowR : Instant)

/-- A link starts with message 2 on its way and nothing else. -/
theorem linkInv_start (hP : P.aead.Lawful) (hmatch : Args.Matching i r)
    (hcfg : Compatible cfgI cfgR) (hi : P.x25519 ri (P.publicOf rr) = some shared)
    (hr : P.x25519 rr (P.publicOf ri) = some shared) {toR : List (Bytes × Instant)}
    (hR : stream toR = (i.initiate P cfgI nowI ri padding).takeOutput.1) :
    ∃ L, LinkInv P L (Link.start P i r cfgI cfgR nowI nowR ri rr padding toR) := by
  obtain ⟨m₁, m₂, i₁, r₁, i₂, r₂, hdone⟩ := hmatch.completes hP hi hr padding
  obtain ⟨hout, htaken⟩ := takeOutput_initiate i cfgI nowI hdone.write₁
  obtain ⟨hshort₁, hlong₁⟩ := length_message1 hP i hdone.write₁
  have hshort₂ := length_message2 hP r hdone.read₁ hdone.write₂
  rw [hout, ← List.append_nil (stream toR)] at hR
  -- the responder's session
  rcases responder_deliver (P := P) (b := r.respond P cfgR nowR rr) rfl rfl rfl hshort₁ hlong₁ hR
    with ⟨-, hrest⟩ | ⟨⟨now, hb⟩, hin⟩
  · exact absurd rfl hrest
  rw [responder_establishes hmatch hdone cfgR nowR now] at hb
  generalize hdef : (r.respond P cfgR nowR rr).deliver P toR = b at hb hin
  have hstate : b.state = .established := congrArg TcpSession.state hb
  have hin : b.in_ = [] := by
    rcases hin with hin | hclosed
    · exact (List.append_eq_nil_iff.mp hin).1
    · rw [hstate] at hclosed
      cases hclosed
  have hbout : b.out = beBytes 2 m₂.length ++ m₂ := congrArg TcpSession.out hb
  have hbcfg : b.cfg = cfgR := congrArg TcpSession.cfg hb
  have hbevents : b.events = [.established] := congrArg TcpSession.events hb
  have hbrecv : b.recvHalf = ⟨(r₂.split P).recv, 0⟩ := congrArg recvHalf hb
  have hbsend : b.sendHalf = ⟨(r₂.split P).send, 0⟩ := congrArg sendHalf hb
  have hbself : b.withIn [] = b := by rw [← hin]; exact withIn_self b
  have hunended : Unended b.events := by
    rw [hbevents]
    exact fun cause n hmem => by simp at hmem
  have hclaims : claims r.self.toList i.peer = true := by
    have h := (claims_append r.self i.peer []).mpr hmatch.2.2.2.2.2.symm
    rwa [List.append_nil] at h
  have hlimits : (Lane.of m₂ (i₂.split P) cfgI).Limits cfgI :=
    ⟨rfl, rfl, hcfg.notice, hcfg.width, hshort₂⟩
  refine ⟨Lane.of m₂ (i₂.split P) cfgI, ?_⟩
  unfold Link.start
  rw [htaken, hdef]
  refine ⟨⟨⟨(i₂.split P).send, 0⟩, hdone.mirrored.keyed.1, .waiting rfl rfl rfl rfl, ?_⟩,
    ⟨⟨(i₂.split P).recv, 0⟩, hdone.mirrored.keyed.2, .open hstate rfl ?_, ?_⟩,
    ⟨hlimits, parsed_of_in_nil rfl⟩, ⟨?_, parsed_of_in_nil hin⟩⟩
  · -- nothing is on its way to the responder
    dsimp only
    rw [hbself, hin]
    have hahead := ahead_nil (P := P) (L := Lane.of m₂ (i₂.split P) cfgI)
      (h := ⟨(i₂.split P).send, 0⟩) hdone.mirrored.keyed.1 hunended
      (by rw [hbevents]; rfl)
    have hhalf : b.recvHalf = ⟨(i₂.split P).send, 0⟩ := by rw [hbrecv, hdone.mirrored.send]
    rw [← hhalf] at hahead ⊢
    exact .open hstate hahead
  · rw [hbsend, hdone.mirrored.recv]
  · -- message 2 is on its way to the initiator
    dsimp only
    rw [hbout, List.nil_append, ← List.append_nil (_ ++ m₂)]
    have hahead := ahead_nil (P := P) (L := Lane.of m₂ (i₂.split P) cfgI)
      (h := ⟨(i₂.split P).recv, 0⟩) hdone.mirrored.keyed.2 (fun _ _ hmem => (List.not_mem_nil hmem).elim) rfl
    exact .waiting rfl rfl ⟨i₁, _, i₂, rfl, hdone.read₂, hclaims, rfl⟩ rfl rfl hahead
  · dsimp only
    rw [hbcfg]
    exact ⟨hcfg.maxRecord.symm, hcfg.rekeyEvery.symm, hcfg.notice, hcfg.width, hshort₂⟩

/-- Reliable ordered records, in both directions and at every point of every run
of a link. -/
theorem records_reliable (hP : P.aead.Lawful) (hmatch : Args.Matching i r)
    (hcfg : Compatible cfgI cfgR) (hi : P.x25519 ri (P.publicOf rr) = some shared)
    (hr : P.x25519 rr (P.publicOf ri) = some shared) {toR : List (Bytes × Instant)}
    (hR : stream toR = (i.initiate P cfgI nowI ri padding).takeOutput.1)
    (ops : List Link.Op) :
    let l := run (Link.step P) (Link.start P i r cfgI cfgR nowI nowR ri rr padding toR) ops
    Delivered l.initiator l.responder ∧ Delivered l.responder l.initiator := by
  intro l
  obtain ⟨L, hstart⟩ := linkInv_start nowI nowR hP hmatch hcfg hi hr hR
  have hinv : LinkInv P L l := run_invariant (fun _ op h => h.step hP op) hstart ops
  exact ⟨hinv.toResponder.delivered hP hinv.responder,
    hinv.toInitiator.delivered hP hinv.initiator⟩

end Start

/-- Devices 1 and 2, linked. -/
def sampleLink : Link :=
  Link.start Primitives.checksum sampleDialer sampleListener {} {} 0 0 (Vector.replicate 32 4)
    (Vector.replicate 32 6) (Vector.replicate 16 8) sampleToR

/-- Message 2 arrives. -/
def sampleJoin : List Link.Op := [.responder .takeOutput, .toInitiator 100 5]

/-- Device 1 sends one record, and all of it arrives. -/
def sampleSend : List Link.Op :=
  [.initiator (.send 0x10 [1, 2] 6), .initiator .takeOutput, .toResponder 100 7]

/-- One record and then a close, cut inside the frame of the close. -/
def sampleOps : List Link.Op :=
  sampleJoin ++ sampleSend ++
    [.initiator (.close 9), .initiator .takeOutput, .toResponder 2 8, .toResponder 100 9]

/-- The link behind them. -/
def sampleClosed : Link := run (Link.step Primitives.checksum) sampleLink sampleOps

/-- Device 2 is told of the record and, last, of the close. -/
theorem records_reliable_sample :
    sampleClosed.initiator.sent = [(0x10, [1, 2])] ∧
      records sampleClosed.responder.session.events = sampleClosed.initiator.sent ∧
      sampleClosed.responder.session.events.getLast? = some (.closed .peerNotice 9) := by
  have hi : Primitives.checksum.x25519 (Vector.replicate 32 4)
      (Primitives.checksum.publicOf (Vector.replicate 32 6)) = some (Vector.replicate 32 2) := by
    decide +kernel
  have hr : Primitives.checksum.x25519 (Vector.replicate 32 6)
      (Primitives.checksum.publicOf (Vector.replicate 32 4)) = some (Vector.replicate 32 2) := by
    decide +kernel
  have hcfg : Compatible ({} : TcpSessionConfig) {} :=
    ⟨rfl, rfl, by decide, by decide, by decide⟩
  have hall := records_reliable 0 0 Aead.checksum_lawful (i := sampleDialer) (r := sampleListener)
    (by decide) hcfg hi hr stream_sampleToR sampleOps
  have hrun : sampleClosed.initiator.sent = [(0x10, [1, 2])] ∧
      sampleClosed.responder.ended = false ∧ sampleClosed.initiator.wire = [] ∧
      sampleClosed.initiator.session.out = [] ∧ sampleClosed.initiator.closing = some 9 := by
    decide +kernel
  obtain ⟨hsent, hended, hwire, hout, hclosing⟩ := hrun
  obtain ⟨hrecords, hnotice⟩ := hall.1.complete hended hwire hout
  exact ⟨hsent, hrecords, hnotice 9 hclosing⟩

/-- A receiver whose own idle timeout has ended it is told of nothing more,
though the sender's `send` still accepts and every byte arrives. -/
theorem idle_receiver_is_told_nothing :
    let l := run (Link.step Primitives.checksum) sampleLink
      (sampleJoin ++ .responder (.onTimeout (seconds 100)) :: sampleSend)
    l.initiator.sent = [(0x10, [1, 2])] ∧ l.initiator.wire = [] ∧ l.initiator.session.out = [] ∧
      records l.responder.session.events = [] := by
  decide +kernel

end TcpSession

end UConnect
