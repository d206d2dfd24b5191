/-
  Session/PathChanges.lean --- which address a session sends to.

  `on_datagram` takes the source of every packet it accepts for the peer's
  address.  The replay window accepts packets up to 64 behind the newest, so a
  packet that was overtaken on the way, and comes from an address the peer has
  left, moves the session back there.  `path_follows_newest` says that nothing
  else does: as long as such stragglers come from the current path, the path is
  the source of the newest packet.
-/
import UConnect.Session.FarJumps

set_option autoImplicit false

namespace UConnect

open UConnect.Foundation UConnect.Crypto UConnect.Wire

theorem Endpoint.same_refl (e : Endpoint) : e.same e = true := by
  simp [Endpoint.same, IpAddr.same]

/-- Two addresses that are the same as a third are the same. -/
theorem Endpoint.same_of_same {a b c : Endpoint} (hab : a.same b = true)
    (hac : a.same c = true) : c.same b = true := by
  simp only [Endpoint.same, IpAddr.same, Bool.and_eq_true, beq_iff_eq] at hab hac ⊢
  obtain ⟨hport, hfam, hbytes⟩ := hab
  obtain ⟨hport', hfam', hbytes'⟩ := hac
  have hlen : c.ip.addrLen = a.ip.addrLen := by
    unfold IpAddr.addrLen
    rw [hfam']
  refine ⟨hport'.symm.trans hport, hfam'.symm.trans hfam, ?_⟩
  rw [hlen, ← hbytes', hbytes]

namespace Session

/-- The packet number and the source of a `Transport` packet that a call takes. -/
def takes (P : Primitives) (s : Session) : Session.Op → List (Nat × Endpoint)
  | .onDatagram src dgram now =>
      match s.addressed dgram with
      | some ([], t) => if s.accepts P dgram now then [(t.counter, src)] else []
      | _ => []
  | _ => []

/-- A call of a session that hears nothing but its peer's `Transport` packets;
each packet has its number, its payload and the address it comes from. -/
inductive PeerOp where
  | packet (counter : UInt64) (plain : Bytes) (src : Endpoint) (now : Instant)
  | send (payload : Bytes) (now : Instant)
  | onTimeout (now : Instant)
  | close
  | closeWithNotice (reason : UInt16)
  deriving DecidableEq

/-- The call on the session, whose peer sends under `k`. -/
def PeerOp.op (P : Primitives) (k : SymKey) (s : Session) : PeerOp → Session.Op
  | .packet counter plain src now =>
      .onDatagram src (UConnect.packet MsgType.transport s.connId counter.toNat
        (genuine P k s.cfg.rekeyShift counter.toNat [] plain)) now
  | .send payload now => .send payload now
  | .onTimeout now => .onTimeout now
  | .close => .close
  | .closeWithNotice reason => .closeWithNotice reason

end Session

/-- A session, and the packets it took with their sources. -/
structure Follower where
  sess : Session
  taken : List (Nat × Endpoint) := []
  deriving DecidableEq

namespace Follower

/-- A call. -/
def step (P : Primitives) (k : SymKey) (f : Follower) (o : Session.PeerOp) : Follower where
  sess := f.sess.step P (o.op P k f.sess)
  taken := f.taken ++ f.sess.takes P (o.op P k f.sess)

/-- The path is the source of the newest packet taken, or the first path before
any. -/
structure OnNewest (start : Endpoint) (f : Follower) : Prop where
  first : f.taken = [] → f.sess.path = start
  newest : ∀ x ∈ f.taken, (∀ y ∈ f.taken, y.1 ≤ x.1) → x.2.same f.sess.path = true

/-- No straggler from elsewhere: a packet behind the newest one, that the window
would still take, comes from the current path. -/
def InPlace (f : Follower) : Session.PeerOp → Prop
  | .packet counter _ src _ =>
      f.sess.state = .established → f.sess.replay.seen = true →
      counter.toNat ≤ f.sess.replay.highest → (f.sess.replay.accept counter.toNat).1 = true →
      src.same f.sess.path = true
  | _ => True

instance (f : Follower) : ∀ o, Decidable (InPlace f o)
  | .packet _ _ _ _ => inferInstanceAs (Decidable (_ → _ → _ → _ → _))
  | .send _ _ => .isTrue trivial
  | .onTimeout _ => .isTrue trivial
  | .close => .isTrue trivial
  | .closeWithNotice _ => .isTrue trivial

end Follower

/-! ## What a call does to the path

Only a packet that was taken moves it, and it moves to that packet's source. -/

variable {P : Primitives}

theorem Session.path_deliver (s : Session) (src : Endpoint) (plain : Bytes) (now : Instant) :
    (s.deliver src plain now).connId = s.connId ∧
      (s.deliver src plain now).path = if src.same s.path then s.path else src := by
  unfold Session.deliver
  simp only
  cases src.same s.path <;> cases plain.isEmpty <;> exact ⟨rfl, rfl⟩

/-- What a call that takes no packet leaves of the path and, on an open session,
of the window. -/
structure Session.Stays (s s' : Session) : Prop where
  conn : s'.connId = s.connId
  path : s'.path = s.path
  replay : s'.state = .established → s.state = .established ∧ s'.replay = s.replay

theorem Session.Stays.of_eq {s s' : Session} (hconn : s'.connId = s.connId)
    (hpath : s'.path = s.path) (hstate : s'.state = s.state) (hreplay : s'.replay = s.replay) :
    s.Stays s' where
  conn := hconn
  path := hpath
  replay h := ⟨hstate ▸ h, hreplay⟩

theorem Session.Stays.trans {s s' s'' : Session} (h : s.Stays s') (h' : s'.Stays s'') :
    s.Stays s'' where
  conn := h'.conn.trans h.conn
  path := h'.path.trans h.path
  replay hs := by
    obtain ⟨hmid, hreplay'⟩ := h'.replay hs
    obtain ⟨hopen, hreplay⟩ := h.replay hmid
    exact ⟨hopen, hreplay'.trans hreplay⟩

theorem Session.stays_closeWithCause (s : Session) (cause : CloseCause) (reason : Nat) :
    s.Stays (s.closeWithCause cause reason) := by
  unfold Session.closeWithCause
  split
  · exact .of_eq rfl rfl rfl rfl
  · refine ⟨rfl, rfl, fun h => ?_⟩
    cases h

theorem Session.stays_sealPacket (s : Session) (type : MsgType) (ad plain : Bytes)
    (capacity : Nat) : s.Stays (s.sealPacket P type ad plain capacity).2 := by
  unfold Session.sealPacket
  simp only
  split
  · exact .of_eq rfl rfl rfl rfl
  · exact .of_eq rfl rfl rfl rfl

theorem Session.stays_sendPacket (s : Session) (payload : Bytes) (now : Instant) :
    s.Stays (s.sendPacket P payload now).2 := by
  have hseal := s.stays_sealPacket (P := P) MsgType.transport [] payload (kMaxDatagram + 64)
  unfold Session.sendPacket
  split
  · exact .of_eq rfl rfl rfl rfl
  · simp only
    split
    · exact hseal
    · exact hseal.trans (.of_eq rfl rfl rfl rfl)

theorem Session.state_of_addressed {s : Session} {dgram : Bytes} {x : Bytes × Transport}
    (h : s.addressed dgram = some x) : s.state = .established := by
  cases hstate : s.state with
  | established => rfl
  | closed =>
      unfold Session.addressed at h
      rw [if_pos hstate] at h
      cases h

theorem Session.path_openPacket (s : Session) (c : Nat) (ad ct : Bytes) (now : Instant) :
    (s.openPacket P c ad ct now).2.connId = s.connId ∧
      (s.openPacket P c ad ct now).2.path = s.path := by
  unfold Session.openPacket
  simp only
  cases s.selectKey P (s.generation c) now with
  | none => exact ⟨rfl, rfl⟩
  | some p =>
      obtain ⟨use, jumped⟩ := p
      obtain ⟨next, hnext⟩ := s.spendFarJump_eq (s.generation c) jumped now
      simp only [hnext]
      cases use.decryptAt P c ad ct with
      | none => exact ⟨rfl, rfl⟩
      | some plain =>
          simp only
          cases (s.replay.accept c).1 <;> cases jumped <;> exact ⟨rfl, rfl⟩

/-- A datagram is taken and may move the path, or is not and leaves it. -/
theorem Session.onDatagram_takes (s : Session) (src : Endpoint) (dgram : Bytes) (now : Instant) :
    (s.takes P (.onDatagram src dgram now) = [] ∧ s.Stays (s.onDatagram P src dgram now)) ∨
      ∃ c, s.takes P (.onDatagram src dgram now) = [(c, src)] ∧
        s.state = .established ∧ (s.replay.accept c).1 = true ∧
        (s.onDatagram P src dgram now).connId = s.connId ∧
        (s.onDatagram P src dgram now).replay = (s.replay.accept c).2 ∧
        (s.onDatagram P src dgram now).path = if src.same s.path then s.path else src := by
  cases haccepts : s.accepts P dgram now with
  | false =>
      obtain ⟨next, history, heq⟩ := Session.onDatagram_rejected haccepts src
      rw [heq]
      refine Or.inl ⟨?_, .of_eq rfl rfl rfl rfl⟩
      unfold Session.takes
      simp only [haccepts, Bool.false_eq_true, if_false]
      split <;> rfl
  | true =>
      rcases s.onDatagram_cases (P := P) src dgram now with
        ⟨hnone, -⟩ | ⟨m, haddr, hclose⟩ | ⟨t, haddr, htrans⟩
      · unfold Session.accepts at haccepts
        rw [hnone] at haccepts
        cases haccepts
      · refine Or.inl ⟨?_, ?_⟩
        · unfold Session.takes
          simp only [haddr]
        · have hstate := (s.sendSide_openPacket (P := P) m.counter [MsgType.close] m.ciphertext
            now).2.1
          obtain ⟨hconn, hpath⟩ :=
            s.path_openPacket (P := P) m.counter [MsgType.close] m.ciphertext now
          rw [hclose]
          unfold Session.onClose
          split
          · rename_i s' hs'
            unfold Session.accepts at haccepts
            simp only [haddr, hs'] at haccepts
            cases haccepts
          · rename_i plain s' hs'
            rw [hs'] at hstate hconn hpath
            have hlive : s'.state = .established :=
              hstate.trans (Session.state_of_addressed haddr)
            unfold Session.closeWithCause
            rw [if_neg (by rw [hlive]; exact SessionState.noConfusion)]
            refine ⟨hconn, hpath, fun h => ?_⟩
            cases h
      · refine Or.inr ⟨t.counter, ?_, Session.state_of_addressed haddr, ?_⟩
        · unfold Session.takes
          simp only [haddr, haccepts, if_true]
        · obtain ⟨hconn, hpath⟩ := s.path_openPacket (P := P) t.counter [] t.ciphertext now
          rw [htrans]
          unfold Session.onTransport
          split
          · rename_i s' hs'
            unfold Session.accepts at haccepts
            simp only [haddr, hs'] at haccepts
            cases haccepts
          · rename_i plain s' hs'
            obtain ⟨-, -, key, -, hfresh, -, hreplay⟩ := Session.openPacket_some hs'
            rw [hs'] at hconn hpath
            simp only at hconn hpath
            obtain ⟨hconn', hpath'⟩ := s'.path_deliver src plain now
            rw [hpath', hconn', hconn, hpath, (s'.deliver_log src plain now).2.1]
            exact ⟨hfresh, rfl, hreplay, rfl⟩

/-- A packet of the peer is addressed to the session, and is the one it says. -/
theorem Session.addressed_packet {s : Session} (hopen : s.state = .established)
    (hconn : s.connId < 256 ^ 4) {c : Nat} (hc : c < 256 ^ 8) (ct : Bytes) :
    s.addressed (packet MsgType.transport s.connId c ct) = some ([], ⟨s.connId, c, ct⟩) := by
  unfold Session.addressed packet
  rw [if_neg (by rw [hopen]; exact SessionState.noConfusion),
    Header.decode_image rfl (show classify MsgType.transport ≠ .unknown by decide)
      (show 0 < 256 ^ 4 by decide)]
  simp only
  rw [Transport.decode_image hconn hc, if_neg (by decide), if_neg (by simp)]
  simp

theorem Session.takes_packet {s : Session} (hopen : s.state = .established)
    (hconn : s.connId < 256 ^ 4) {c : Nat} (hc : c < 256 ^ 8) (src : Endpoint) (ct : Bytes)
    (now : Instant) :
    s.takes P (.onDatagram src (packet MsgType.transport s.connId c ct) now) =
      if s.accepts P (packet MsgType.transport s.connId c ct) now then [(c, src)] else [] := by
  unfold Session.takes
  simp only [Session.addressed_packet hopen hconn hc ct]

/-- Of the calls of a peer's session only a packet can be taken. -/
theorem Session.stays_step (s : Session) {op : Session.Op}
    (hdgram : ∀ src dgram now, op ≠ .onDatagram src dgram now)
    (hpath : ∀ path now, op ≠ .setPath path now) :
    s.takes P op = [] ∧ s.Stays (s.step P op) := by
  cases op with
  | onDatagram src dgram now => exact absurd rfl (hdgram src dgram now)
  | setPath path now => exact absurd rfl (hpath path now)
  | send payload now =>
      refine ⟨rfl, ?_⟩
      show s.Stays (s.send P payload now).2
      unfold Session.send
      split
      · exact .of_eq rfl rfl rfl rfl
      · exact s.stays_sendPacket payload now
  | onTimeout now =>
      refine ⟨rfl, ?_⟩
      show s.Stays (s.onTimeout P now)
      unfold Session.onTimeout
      split
      · exact .of_eq rfl rfl rfl rfl
      split
      · exact s.stays_closeWithCause _ _
      split
      · exact s.stays_sendPacket [] now
      · exact .of_eq rfl rfl rfl rfl
  | close => exact ⟨rfl, s.stays_closeWithCause _ _⟩
  | closeWithNotice reason =>
      refine ⟨rfl, ?_⟩
      show s.Stays (s.closeWithNotice P reason)
      unfold Session.closeWithNotice Session.close
      split
      · exact .of_eq rfl rfl rfl rfl
      · have hcopy : ∀ t : Session, t.Stays (t.queueClose P reason) :=
          fun t => t.stays_sealPacket _ _ _ _
        exact (((hcopy s).trans (hcopy _)).trans (hcopy _)).trans
          (Session.stays_closeWithCause _ _ _)

/-! ## The path along a run

The newest packet taken so far, and the address it came from, followed along the
calls. -/

namespace Follower

variable {k : SymKey} {start : Endpoint}

/-- The path is that of the newest packet, and on an open session the window
tracks the packets taken. -/
structure Inv (start : Endpoint) (f : Follower) : Prop where
  conn : f.sess.connId < 256 ^ 4
  onNewest : OnNewest start f
  tracks : f.sess.state = .established → f.sess.replay.Tracks (f.taken.map Prod.fst)

theorem Inv.stays {f f' : Follower} (h : Inv start f) (hs : f.sess.Stays f'.sess)
    (htaken : f'.taken = f.taken) : Inv start f' := by
  refine ⟨?_, ⟨?_, ?_⟩, fun hopen => ?_⟩
  · rw [hs.conn]
    exact h.conn
  · rw [htaken, hs.path]
    exact h.onNewest.first
  · rw [htaken, hs.path]
    exact h.onNewest.newest
  · obtain ⟨hopen, hreplay⟩ := hs.replay hopen
    rw [htaken, hreplay]
    exact h.tracks hopen

/-- A packet that is taken in place. -/
theorem Inv.take {f f' : Follower} (h : Inv start f) (hopen : f.sess.state = .established)
    {c : Nat} {src : Endpoint} (hconn : f'.sess.connId = f.sess.connId)
    (htaken : f'.taken = f.taken ++ [(c, src)])
    (hfresh : (f.sess.replay.accept c).1 = true)
    (hreplay : f'.sess.replay = (f.sess.replay.accept c).2)
    (hpath : f'.sess.path = if src.same f.sess.path then f.sess.path else src)
    (hplace : f.sess.replay.seen = true → c ≤ f.sess.replay.highest →
      src.same f.sess.path = true) : Inv start f' := by
  have htracks := h.tracks hopen
  have hnew := htracks.not_mem_of_accept hfresh
  have hhere : src.same f'.sess.path = true := by
    rw [hpath]
    split
    · assumption
    · exact src.same_refl
  refine ⟨?_, ⟨?_, ?_⟩, fun _ => ?_⟩
  · rw [hconn]
    exact h.conn
  · intro hnil
    rw [htaken] at hnil
    exact absurd hnil (List.append_ne_nil_of_right_ne_nil _ (List.cons_ne_nil _ _))
  · intro x hx hmax
    rw [htaken] at hx hmax
    rcases List.mem_append.mp hx with hold | hlast
    · -- an older packet is still the newest: the one just taken is a straggler
      have hle : c ≤ x.1 := hmax (c, src) (List.mem_append_right _ (List.mem_singleton.mpr rfl))
      have hseen : f.sess.replay.seen = true := by
        cases hs : f.sess.replay.seen with
        | true => rfl
        | false =>
            have hempty := List.map_eq_nil_iff.mp (htracks.unseen hs)
            rw [hempty] at hold
            cases hold
      have hhigh : c ≤ f.sess.replay.highest :=
        Nat.le_trans hle (htracks.le x.1 (List.mem_map_of_mem hold))
      rw [hpath, if_pos (hplace hseen hhigh)]
      exact h.onNewest.newest x hold fun y hy => hmax y (List.mem_append_left _ hy)
    · rw [List.mem_singleton.mp hlast]
      exact hhere
  · have hnext := htracks.accept c
    rw [hfresh, if_pos rfl, ← hreplay] at hnext
    refine hnext.of_mem_iff fun n => ?_
    rw [htaken, List.map_append, List.mem_append, List.mem_cons, or_comm]
    simp

theorem Inv.step {f : Follower} (h : Inv start f) {o : Session.PeerOp} (ho : InPlace f o) :
    Inv start (f.step P k o) := by
  have hother : ∀ op, o.op P k f.sess = op → (∀ src dgram now, op ≠ .onDatagram src dgram now) →
      (∀ path now, op ≠ .setPath path now) → Inv start (f.step P k o) := by
    rintro op rfl hdgram hpath
    obtain ⟨hnone, hstays⟩ := f.sess.stays_step (P := P) hdgram hpath
    refine h.stays hstays ?_
    show f.taken ++ f.sess.takes P (o.op P k f.sess) = f.taken
    rw [hnone, List.append_nil]
  cases o with
  | packet counter plain src now =>
      rcases f.sess.onDatagram_takes (P := P) src (packet MsgType.transport f.sess.connId
          counter.toNat (genuine P k f.sess.cfg.rekeyShift counter.toNat [] plain)) now with
        ⟨hnone, hstays⟩ | ⟨c, htakes, hopen, hfresh, hconn, hreplay, hpath⟩
      · refine h.stays hstays ?_
        show f.taken ++ _ = f.taken
        rw [Session.PeerOp.op, hnone, List.append_nil]
      · have hc : c = counter.toNat := by
          have hpacket := htakes
          rw [Session.takes_packet hopen h.conn counter.toNat_lt] at hpacket
          split at hpacket
          · exact (congrArg Prod.fst (List.cons.inj hpacket).1).symm
          · cases hpacket
        subst hc
        refine h.take hopen hconn ?_ hfresh hreplay hpath fun hseen hle =>
          ho hopen hseen hle hfresh
        show f.taken ++ _ = _
        rw [Session.PeerOp.op, htakes]
  | send payload now => exact hother _ rfl nofun nofun
  | onTimeout now => exact hother _ rfl nofun nofun
  | close => exact hother _ rfl nofun nofun
  | closeWithNotice reason => exact hother _ rfl nofun nofun

/-- A straggler from elsewhere takes the path away from the newest packet. -/
theorem Inv.not_onNewest {f : Follower} (h : Inv start f) (hsched : Schedule P k f.sess)
    (hP : P.aead.Lawful) {o : Session.PeerOp} (ho : ¬ InPlace f o) :
    ¬ OnNewest start (f.step P k o) := by
  cases o with
  | packet counter plain src now =>
      simp only [InPlace, Classical.not_imp] at ho
      obtain ⟨hopen, hseen, hle, hfresh, helse⟩ := ho
      have htracks := h.tracks hopen
      have hnew := hsched.tracks.not_mem_of_accept hfresh
      have hwindow : f.sess.replay.highest < counter.toNat + ReplayWindow.kWidth := by
        have hreaches := ((ReplayWindow.accept_iff htracks counter.toNat).mp hfresh).2
        rw [hseen] at hreaches
        exact hreaches.resolve_left Bool.noConfusion
      -- the packet is genuine and inside the window, so it is taken
      have hreach : Reachable f.sess counter.toNat now := .inl ⟨hwindow, hle⟩
      have hplain := (hsched.open_genuine hP hopen hreach hnew [] plain).1
      have htaken := Session.takes_packet (P := P) hopen h.conn counter.toNat_lt src
        (genuine P k f.sess.cfg.rekeyShift counter.toNat [] plain) now
      have haccepts : f.sess.accepts P (packet MsgType.transport f.sess.connId counter.toNat
          (genuine P k f.sess.cfg.rekeyShift counter.toNat [] plain)) now = true := by
        unfold Session.accepts
        simp only [Session.addressed_packet hopen h.conn counter.toNat_lt, hplain]
        rfl
      rw [haccepts, if_pos rfl] at htaken
      rcases f.sess.onDatagram_takes (P := P) src (packet MsgType.transport f.sess.connId
          counter.toNat (genuine P k f.sess.cfg.rekeyShift counter.toNat [] plain)) now with
        ⟨hnone, -⟩ | ⟨c, -, -, -, -, -, hpath⟩
      · rw [htaken] at hnone
        cases hnone
      rw [if_neg helse] at hpath
      intro hafter
      obtain ⟨⟨n, w⟩, hw, hn⟩ := List.mem_map.mp (htracks.mem hseen)
      simp only at hn
      subst hn
      have hbefore : w.same f.sess.path = true := by
        refine h.onNewest.newest _ hw fun y hy => ?_
        exact htracks.le y.1 (List.mem_map_of_mem hy)
      have hmoved : w.same src = true := by
        rw [← hpath]
        refine hafter.newest (_, w) (List.mem_append_left _ hw) fun y hy => ?_
        have hy : y ∈ f.taken ++ [(counter.toNat, src)] := htaken ▸ hy
        rcases List.mem_append.mp hy with hy | hy
        · exact htracks.le y.1 (List.mem_map_of_mem hy)
        · rw [List.mem_singleton.mp hy]
          exact hle
      exact helse (Endpoint.same_of_same hbefore hmoved)
  | _ => exact absurd trivial ho

/-- In every run of a session and every state on the way, the path is the source
of the newest packet, provided stragglers come from the current path; and where
the keys follow the schedule, that is the only way. -/
theorem path_follows_newest (P : Primitives) (cfg : SessionConfig) (path : Endpoint)
    (send recv : SymKey) (connId : ConnId) (start : Instant) (hconn : connId < 2 ^ 32)
    (ops : List Session.PeerOp) :
    let f : Follower := { sess := .create cfg path send recv connId start }
    (AllSteps InPlace (step P recv) f ops →
      ∀ pre, pre <+: ops → OnNewest path (run (step P recv) f pre)) ∧
    (P.aead.Lawful → 7 ≤ cfg.rekeyShift → cfg.rekeyShift ≤ 63 →
      (∀ pre, pre <+: ops → OnNewest path (run (step P recv) f pre)) →
      AllSteps InPlace (step P recv) f ops) := by
  intro f
  have hinit : Inv path f := by
    refine ⟨hconn, ⟨fun _ => rfl, fun x hx => ?_⟩, fun _ => ReplayWindow.tracks_init⟩
    cases hx
  constructor
  · rintro hall pre ⟨rest, rfl⟩
    have hrun : Inv path (run (step P recv) f pre) :=
      run_invariant_of_allSteps (I := Inv path) (fun g o ho hg => hg.step ho) hinit pre
        (allSteps_append.mp hall).1
    exact hrun.onNewest
  · intro hP hlo hhi
    have hsched : Schedule P recv f.sess :=
      schedule_create cfg path send recv connId start hlo hhi hconn
    -- along the run: as long as the path is that of the newest packet, nothing was out of place
    clear_value f
    induction ops generalizing f with
    | nil => exact fun _ => trivial
    | cons o ops ih =>
        intro hall
        have ho : InPlace f o := by
          by_contra hout
          refine hinit.not_onNewest hsched hP hout ?_
          exact hall [o] (List.prefix_append [o] ops)
        refine ⟨ho, ih _ (hinit.step ho) (hsched.step _) fun pre hpre => ?_⟩
        exact hall (o :: pre) (List.cons_prefix_cons.mpr ⟨rfl, hpre⟩)

/-- An address of the peer. -/
def sampleAddress (port : Nat) : Endpoint := { port := port }

/-- The peer moves from the first address to the second. -/
def sampleMove : List Session.PeerOp :=
  [.packet 0 [7] (sampleAddress 1) 1, .packet 2 [8] (sampleAddress 2) 2]

theorem path_follows_newest_sample :
    OnNewest (sampleAddress 1) (run (step Primitives.checksum (Vector.replicate 32 2))
      { sess := .create {} (sampleAddress 1) (Vector.replicate 32 1) (Vector.replicate 32 2) 9 0 }
      sampleMove) := by
  refine (path_follows_newest Primitives.checksum {} (sampleAddress 1) (Vector.replicate 32 1)
    (Vector.replicate 32 2) 9 0 (by decide) sampleMove).1 ?_ sampleMove (List.prefix_refl _)
  decide +kernel

/-- Packet 1 was overtaken by packet 2; it comes last, from the address the peer
left. -/
def sampleOvertaken : Follower :=
  run (step Primitives.checksum (Vector.replicate 32 2))
    { sess := .create {} (sampleAddress 1) (Vector.replicate 32 1) (Vector.replicate 32 2) 9 0 }
    (sampleMove ++ [.packet 1 [9] (sampleAddress 1) 3])

theorem straggler_moves_path_back : ¬ OnNewest (sampleAddress 1) sampleOvertaken := by
  intro h
  have hpath : (sampleAddress 2).same sampleOvertaken.sess.path = true :=
    h.newest (2, sampleAddress 2) (by decide +kernel) (by decide +kernel)
  revert hpath
  decide +kernel

end Follower

end UConnect
