/-
  Server/SpliceRuns.lean --- the pipes over whole runs.

  Pairs are made by the loop, out of a new connection and a leg that waits, in
  one action; what the two sent early is passed on in two more.  Between the
  first and the last of these the loop does nothing else, but workers and timers
  do.  After that a leg moves to a worker with its partner, reads and writes
  there, and is closed there.
-/
import UConnect.Server.Splice

set_option autoImplicit false

namespace UConnect.Server.Rendezvous

open UConnect UConnect.Foundation UConnect.Crypto UConnect.Wire

variable {P : Primitives} {s s' s'' : Rendezvous} {p : Place} {key : ConnKey} {c d : Conn}

/-! ## Accepting

A new connection is in no pipe. -/

theorem Tame.of_held (hheld : ∀ y ∈ s'.held, y ∈ s.held) (hnext : s'.nextKey = s.nextKey) :
    Tame s s' :=
  ⟨Nat.le_of_eq hnext.symm, fun y hy _ => ⟨y, hheld y hy, rfl, id⟩⟩

/-- A connection that has sent nothing is ready. -/
theorem Conn.Ready.fresh (cfg : RendezvousConfig) (key : ConnKey) (peer : Address) (now : Instant) :
    Conn.Ready cfg { key := key, peer := peer, opened := now, lastRx := now } :=
  ⟨rfl, rfl, fun _ => FrameReader.Reading.init kMaxFrame⟩

/-- A new connection has a key that no leg knows. -/
theorem Pipes.accepted (hp : s.Pipes) {ips : AList (fun _ : Vector UInt8 16 => Nat)}
    (hkey : c.key = s.nextKey) (hnew : c.mode = .new) :
    Pipes { s with perIp := ips, nextKey := s.nextKey + 1, held := ⟨.loop, c⟩ :: s.held } where
  mates := by
    intro e he hleg
    rcases List.mem_cons.mp he with rfl | he
    · rw [hnew] at hleg
      cases hleg
    · exact List.mem_cons_of_mem _ (hp.mates e he hleg)
  old := by
    intro e he hleg
    rcases List.mem_cons.mp he with rfl | he
    · rw [hnew] at hleg
      cases hleg
    · exact Nat.lt_succ_of_lt (hp.old e he hleg)
  flow := by
    intro e he hleg f hf hpartner
    rcases List.mem_cons.mp he with rfl | he
    · rw [hnew] at hleg
      cases hleg
    rcases List.mem_cons.mp hf with rfl | hf
    · exact absurd (hpartner.symm.trans hkey) (Nat.ne_of_lt (hp.old e he hleg))
    · exact hp.flow e he hleg f hf hpartner
  whole := by
    intro x hmem hlive f hf hpartner
    rcases List.mem_cons.mp hmem with rfl | hx
    · have hleg := hlive.leg
      rw [hnew] at hleg
      cases hleg
    rcases List.mem_cons.mp hf with rfl | hf
    · exact absurd (hpartner.symm.trans hkey)
        (Nat.ne_of_lt (hp.old x.conn (mem_all_of_held hx) hlive.leg))
    · exact hp.whole x hx hlive f hf hpartner

/-- A connection that is accepted has read and written nothing. -/
theorem Wired.accept (hw : s.Wired) (peer : Option Address) (now : Instant) :
    (s.accept peer now).Wired := by
  have hinv := hw.inv.accept peer now
  unfold Rendezvous.accept at hinv ⊢
  cases peer with
  | none => exact hw
  | some peer =>
      dsimp only at hinv ⊢
      split
      · rename_i hfull
        rw [if_pos hfull] at hinv
        split
        · rename_i hzero
          rw [if_pos hzero] at hinv
          exact ⟨hinv, hw.ready, hw.pipes.still (.of_held Still.refl rfl rfl rfl rfl fun _ h => h),
            hw.knows, hw.opened, hw.stays⟩
        · exact hw
      · rename_i hroom
        rw [if_neg hroom] at hinv
        have htame : Tame s { s with
            perIp := s.perIp.insert peer.val.ip.bytes ((s.perIp.lookup peer.val.ip.bytes).getD 0 + 1)
            nextKey := s.nextKey + 1
            held := { place := .loop
                      conn := { key := s.nextKey, peer := peer, opened := now, lastRx := now } } ::
              s.held } := by
          refine ⟨Nat.le_succ _, fun y hy hold => ?_⟩
          rcases List.mem_cons.mp hy with rfl | hy
          · exact absurd hold (Nat.lt_irrefl _)
          · exact ⟨y, hy, rfl, id⟩
        refine ⟨hinv, fun e he => ?_, hw.pipes.accepted rfl rfl, hw.knows.mono fun _ => htame.control,
          fun key msg hd => htame.control (hw.opened key msg hd), fun src dst id again hd => ?_⟩
        · rcases List.mem_cons.mp he with rfl | he
          · exact Conn.Ready.fresh s.cfg s.nextKey peer now
          · exact hw.ready e he
        · obtain ⟨⟨x, hx, hfacts⟩, y, hy, hfacts'⟩ := hw.stays src dst id again hd
          exact ⟨⟨x, List.mem_cons_of_mem _ hx, hfacts⟩, y, List.mem_cons_of_mem _ hy, hfacts'⟩

/-! ## Joining a relay

Making a pair starts two pipes, with what both legs had sent early still to be
passed on. -/

/-- A new connection that has joined, before it waits or is spliced. -/
structure Conn.Admitted (cfg : RendezvousConfig) (c : Conn) : Prop where
  new : c.mode = .new
  out : c.out = []
  written : c.written = []
  joined : Joined c.joined c.received
  early : c.received = c.joined ++ c.relayEarly
  room : c.relayEarly.length ≤ cfg.spliceBuffer

/-- What holds while the loop makes the connection `k` a leg; a name may be
missing. -/
structure Carries (k : ConnKey) (s : Rendezvous) : Prop where
  distinct : s.Distinct
  old : ∀ x ∈ s.held, x.conn.key < s.nextKey
  gone : ∀ c ∈ s.closed, ∀ x ∈ s.held, x.conn.key ≠ c.key
  ready : ∀ c ∈ s.all, c.key ≠ k → c.Ready s.cfg
  pipes : s.Pipes
  knows : s.service.Knows s.Control
  idle : s.doing = .nothing

theorem Tame.modify {k : ConnKey} {f : Conn → Conn}
    (hf : ∀ x ∈ s.held, x.conn.key = k → (f x.conn).key = x.conn.key ∧
      (x.conn.mode = .control → (f x.conn).mode = .control)) : Tame s (s.modify p k f) := by
  refine ⟨Nat.le_refl _, fun y hy _ => ?_⟩
  obtain ⟨x, hx, rfl⟩ := mem_modify.mp hy
  refine ⟨x, hx, ?_⟩
  split
  · rename_i hat
    exact ⟨(hf x hx hat.2).1.symm, (hf x hx hat.2).2⟩
  · exact ⟨rfl, id⟩

/-- The one connection of a key is no control connection. -/
theorem Tame.modify_at (hd : s.Distinct) (hc : ⟨p, c⟩ ∈ s.held) (hmode : c.mode ≠ .control)
    {f : Conn → Conn} (hkey : (f c).key = c.key) : Tame s (s.modify p c.key f) := by
  refine Tame.modify fun x hx hsame => ?_
  obtain rfl := hd.eq hx hc hsame
  exact ⟨hkey, fun hcontrol => absurd hcontrol hmode⟩

/-- Taking a name off the list of those that wait changes no connection. -/
theorem Carries.unwait {k : ConnKey} (h : Carries k s) (side : Fin 2) (id : RelayId) :
    Carries k (s.unwait side id) :=
  ⟨h.distinct, h.old, h.gone, h.ready,
    h.pipes.still (.of_held Still.refl rfl rfl rfl rfl fun _ hd => hd), h.knows, h.idle⟩

/-- An earlier leg of the same side is only killed. -/
theorem Carries.replaceEarlier {k : ConnKey} (h : Carries k s) (side : Fin 2) (id : RelayId) :
    Carries k (s.replaceEarlier side id) := by
  unfold Rendezvous.replaceEarlier
  cases (s.waiting side).lookup id with
  | none => exact h
  | some old =>
      have hedit := quiets_killAt s .loop old
      have hcalm := Calms.killAt s .loop old
      have hkilled : Carries k (s.killAt .loop old) := by
        refine ⟨h.distinct.modify fun _ => rfl, fun y hy => ?_, fun e he y hy => ?_, fun e he hne => ?_,
          h.pipes.still (hedit.mono Quiet.still), h.knows.mono fun _ => (Tame.calms hcalm).control,
          h.idle⟩
        · obtain ⟨x, hx, hcalmed⟩ := hcalm.mem hy
          exact hcalmed.key ▸ h.old x hx
        · obtain ⟨x, hx, hcalmed⟩ := hcalm.mem hy
          exact hcalmed.key ▸ h.gone e he x hx
        · obtain ⟨e₀, he₀, hquiet⟩ := hedit.mem (Quiet.refl s.cfg) he
          exact hquiet.ready (h.ready e₀ he₀ (hquiet.still.key ▸ hne))
      exact hkilled.unwait side id

/-- A leg that was admitted and waits is ready to be paired: its early bytes are
all it has read behind its join. -/
theorem Conn.Admitted.waiting {cfg : RendezvousConfig} (h : c.Admitted cfg) :
    c.toWaiting.Ready cfg :=
  ⟨h.out, h.written, h.joined, fun _ => ⟨h.early, h.room⟩⟩

/-- The leg waits. -/
theorem Carries.wait (h : Carries c.key s) (hc : ⟨.loop, c⟩ ∈ s.held) (hadmitted : c.Admitted s.cfg)
    {side : Fin 2} {relay : RelayId} (hinv : (s.wait c.key side relay).Inv) :
    (s.wait c.key side relay).Wired := by
  have hmode : c.mode ≠ .splice := by
    rw [hadmitted.new]
    exact Mode.noConfusion
  have hcontrol : c.mode ≠ .control := by
    rw [hadmitted.new]
    exact Mode.noConfusion
  have hedit : Edits Still s (s.modify .loop c.key Conn.toWaiting) :=
    Edits.modify_at Still.refl h.distinct hc (Still.apart rfl hmode Mode.noConfusion)
  have htame : Tame s (s.modify .loop c.key Conn.toWaiting) :=
    Tame.modify_at h.distinct hc hcontrol rfl
  refine ⟨hinv, fun e he => ?_, ?_, h.knows.mono fun _ => htame.control, ?_, ?_⟩
  · rcases mem_all.mp he with ⟨x, hx, rfl⟩ | he
    · rcases mem_modify_cases (f := Conn.toWaiting) h.distinct hc hx with rfl | ⟨hx, hne⟩
      · exact hadmitted.waiting
      · exact h.ready x.conn (mem_all_of_held hx) hne
    · exact h.ready e (mem_all.mpr (.inr he)) (h.gone e he _ hc).symm
  · exact (h.pipes.still hedit).still (.of_held Still.refl rfl rfl rfl rfl fun _ hd => hd)
  · intro key msg hd
    cases h.idle.symm.trans hd
  · intro src dst id again hd
    cases h.idle.symm.trans hd

/-- Before it is spliced, the payload of a leg is what it sent early. -/
theorem Joined.payload_eq (hj : c.received = c.joined ++ c.relayEarly) : c.payload = c.relayEarly := by
  rw [Conn.payload, hj, List.drop_left]

/-- The pipe into a leg that has just been told of its pair. -/
theorem flow_start (cfg : RendezvousConfig) (hout : d.out = []) (hwritten : d.written = [])
    (hearly : c.received = c.joined ++ c.relayEarly) (hroom : c.relayEarly.length ≤ cfg.spliceBuffer) :
    Flow cfg (d.toSplice c.key) (c.toSplice d.key) ∧
      (d.toSplice c.key).written ++ (d.toSplice c.key).out ++ (c.toSplice d.key).relayEarly =
        joinOk ++ (c.toSplice d.key).payload := by
  have hout' : (d.toSplice c.key).out = joinOk := congrArg (· ++ joinOk) hout
  have hall : (d.toSplice c.key).written ++ (d.toSplice c.key).out ++ (c.toSplice d.key).relayEarly =
      joinOk ++ (c.toSplice d.key).payload := by
    rw [Joined.payload_eq (c := c.toSplice d.key) hearly, hout']
    exact congrArg (· ++ joinOk ++ c.relayEarly) hwritten
  refine ⟨⟨rfl, rfl, hall ▸ List.prefix_rfl, ?_⟩, hall⟩
  rw [hout', outLimit, Nat.add_comm]
  exact Nat.add_le_add_right hroom _

/-- A pair is made of two connections that are in none. -/
theorem Carries.pipes_splice (h : Carries c.key s) (hc : ⟨.loop, c⟩ ∈ s.held)
    (hd : ⟨.loop, d⟩ ∈ s.held) (hne : d.key ≠ c.key) (hcmode : c.mode ≠ .splice)
    (hdmode : d.mode ≠ .splice) {relay : RelayId}
    (hto : Flow s.cfg (d.toSplice c.key) (c.toSplice d.key) ∧
      (d.toSplice c.key).written ++ (d.toSplice c.key).out ++ (c.toSplice d.key).relayEarly =
        joinOk ++ (c.toSplice d.key).payload)
    (hfro : Flow s.cfg (c.toSplice d.key) (d.toSplice c.key) ∧
      (c.toSplice d.key).written ++ (c.toSplice d.key).out ++ (d.toSplice c.key).relayEarly =
        joinOk ++ (d.toSplice c.key).payload) :
    (s.splice c.key d.key relay).Pipes := by
  have hmem : ∀ x ∈ (s.splice c.key d.key relay).held, x = ⟨.loop, c.toSplice d.key⟩ ∨
      x = ⟨.loop, d.toSplice c.key⟩ ∨ x ∈ s.held ∧ x.conn.key ≠ c.key ∧ x.conn.key ≠ d.key :=
    fun x hx => mem_splice h.distinct hc hd hne hx
  have hcases : ∀ e ∈ (s.splice c.key d.key relay).all, e = c.toSplice d.key ∨ e = d.toSplice c.key ∨
      e ∈ s.all ∧ e.key ≠ c.key ∧ e.key ≠ d.key := by
    intro e he
    rcases mem_all.mp he with ⟨x, hx, rfl⟩ | he
    · rcases hmem x hx with rfl | rfl | ⟨hx, hxc, hxd⟩
      · exact .inl rfl
      · exact .inr (.inl rfl)
      · exact .inr (.inr ⟨mem_all_of_held hx, hxc, hxd⟩)
    · exact .inr (.inr ⟨mem_all.mpr (.inr he), (h.gone e he _ hc).symm, (h.gone e he _ hd).symm⟩)
  -- no leg there was has one of the two for a partner
  have hothers : ∀ e ∈ s.all, e.mode = .splice → c.key ≠ e.partner ∧ d.key ≠ e.partner := by
    intro e he hleg
    refine ⟨fun hkey => hcmode ?_, fun hkey => hdmode ?_⟩
    · exact (h.pipes.flow e he hleg c (mem_all_of_held hc) hkey).leg
    · exact (h.pipes.flow e he hleg d (mem_all_of_held hd) hkey).leg
  have hkeys : (s.splice c.key d.key relay).keys = s.keys := by
    refine keys_eq ((keys_modify (f := fun p => p.toSplice c.key) fun _ => rfl).trans ?_) rfl
    exact keys_modify (f := fun c => c.toSplice d.key) fun _ => rfl
  refine ⟨?_, ?_, ?_, ?_⟩
  · intro e he hleg
    rw [hkeys]
    rcases hcases e he with rfl | rfl | ⟨he, -, -⟩
    · exact List.mem_map_of_mem (mem_all_of_held hd)
    · exact List.mem_map_of_mem (mem_all_of_held hc)
    · exact h.pipes.mates e he hleg
  · intro e he hleg
    rcases hcases e he with rfl | rfl | ⟨he, -, -⟩
    · exact h.old _ hd
    · exact h.old _ hc
    · exact h.pipes.old e he hleg
  · intro e he hleg f hf hkey
    rcases hcases e he with rfl | rfl | ⟨he, -, -⟩
    · rcases hcases f hf with rfl | rfl | ⟨-, -, hfd⟩
      · exact absurd hkey.symm hne
      · exact hfro.1
      · exact absurd hkey hfd
    · rcases hcases f hf with rfl | rfl | ⟨-, hfc, -⟩
      · exact hto.1
      · exact absurd hkey hne
      · exact absurd hkey hfc
    · obtain ⟨hnotc, hnotd⟩ := hothers e he hleg
      rcases hcases f hf with rfl | rfl | ⟨hf, -, -⟩
      · exact absurd hkey hnotc
      · exact absurd hkey hnotd
      · exact h.pipes.flow e he hleg f hf hkey
  · intro x hx hlive f hf hkey
    rcases hmem x hx with rfl | rfl | ⟨hx, -, -⟩
    · rcases hcases f hf with rfl | rfl | ⟨-, -, hfd⟩
      · exact absurd hkey.symm hne
      · exact ⟨hfro.2, .inr (.inr ⟨rfl, rfl⟩)⟩
      · exact absurd hkey hfd
    · rcases hcases f hf with rfl | rfl | ⟨-, hfc, -⟩
      · exact ⟨hto.2, .inr (.inl rfl)⟩
      · exact absurd hkey hne
      · exact absurd hkey hfc
    · obtain ⟨hnotc, hnotd⟩ := hothers x.conn (mem_all_of_held hx) hlive.leg
      rcases hcases f hf with rfl | rfl | ⟨hf, -, -⟩
      · exact absurd hkey hnotc
      · exact absurd hkey hnotd
      · obtain ⟨hall, hearly⟩ := h.pipes.whole x hx hlive f hf hkey
        rw [h.idle] at hearly
        exact ⟨hall, .inl (hearly.resolve_right id)⟩

/-- What is known of a leg that waits: nothing was queued for it, and its bytes
are its join and its early bytes. -/
theorem Conn.Ready.waiting {cfg : RendezvousConfig} (h : c.Ready cfg) (hwaits : c.mode = .relayWaiting) :
    c.out = [] ∧ c.written = [] ∧ Joined c.joined c.received ∧
      (c.dead = false → c.received = c.joined ++ c.relayEarly ∧
        c.relayEarly.length ≤ cfg.spliceBuffer) := by
  unfold Conn.Ready at h
  rw [hwaits] at h
  exact h

/-- A leg that has just been told of its pair is ready. -/
theorem Conn.Ready.spliced (cfg : RendezvousConfig) (hj : Joined c.joined c.received)
    (hout : c.out = []) (partner : ConnKey) : (c.toSplice partner).Ready cfg := by
  refine Conn.Ready.of_leg rfl hj ?_
  rw [show (c.toSplice partner).out = joinOk from congrArg (· ++ joinOk) hout]
  exact Nat.le_add_left _ _

/-- The leg and the one that waits for it become a pair. -/
theorem Carries.splice (h : Carries c.key s) (hc : ⟨.loop, c⟩ ∈ s.held)
    (hadmitted : c.Admitted s.cfg) (hd : ⟨.loop, d⟩ ∈ s.held) (hwaits : d.mode = .relayWaiting)
    (hlive : d.dead = false) {relay : RelayId} (hinv : (s.splice c.key d.key relay).Inv) :
    (s.splice c.key d.key relay).Wired := by
  have hne : d.key ≠ c.key := by
    intro hkey
    have heq : d = c := congrArg Held.conn (h.distinct.eq hd hc hkey)
    rw [heq, hadmitted.new] at hwaits
    cases hwaits
  have hcmode : c.mode ≠ .splice := by
    rw [hadmitted.new]
    exact Mode.noConfusion
  have hdmode : d.mode ≠ .splice := by
    rw [hwaits]
    exact Mode.noConfusion
  obtain ⟨hdout, hdwritten, hdjoined, hdearly⟩ := (h.ready d (mem_all_of_held hd) hne).waiting hwaits
  obtain ⟨hdall, hdroom⟩ := hdearly hlive
  have hmem : ∀ x ∈ (s.splice c.key d.key relay).held, x = ⟨.loop, c.toSplice d.key⟩ ∨
      x = ⟨.loop, d.toSplice c.key⟩ ∨ x ∈ s.held ∧ x.conn.key ≠ c.key ∧ x.conn.key ≠ d.key :=
    fun x hx => mem_splice h.distinct hc hd hne hx
  have htame : Tame s (s.splice c.key d.key relay) := by
    refine ⟨Nat.le_refl _, fun y hy _ => ?_⟩
    rcases hmem y hy with rfl | rfl | ⟨hy, -, -⟩
    · refine ⟨_, hc, rfl, fun hcontrol => ?_⟩
      rw [hadmitted.new] at hcontrol
      cases hcontrol
    · refine ⟨_, hd, rfl, fun hcontrol => ?_⟩
      rw [hwaits] at hcontrol
      cases hcontrol
    · exact ⟨y, hy, rfl, id⟩
  refine ⟨hinv, fun e he => ?_, ?_, h.knows.mono fun _ => htame.control, ?_, ?_⟩
  · rcases mem_all.mp he with ⟨x, hx, rfl⟩ | he
    · rcases hmem x hx with rfl | rfl | ⟨hx, hxc, -⟩
      · exact Conn.Ready.spliced s.cfg hadmitted.joined hadmitted.out d.key
      · exact Conn.Ready.spliced s.cfg hdjoined hdout c.key
      · exact h.ready x.conn (mem_all_of_held hx) hxc
    · exact h.ready e (mem_all.mpr (.inr he)) (h.gone e he _ hc).symm
  · exact h.pipes_splice hc hd hne hcmode hdmode
      (flow_start s.cfg hdout hdwritten hadmitted.early hadmitted.room)
      (flow_start s.cfg hadmitted.out hadmitted.written hdall hdroom)
  · intro key msg hdoing
    cases hdoing
  · intro src dst id again hdoing
    cases hdoing
    have hc' : ⟨.loop, c.toSplice d.key⟩ ∈ (s.modify .loop c.key fun c => c.toSplice d.key).held :=
      mem_modify_self hc
    have hd' : ⟨.loop, d⟩ ∈ (s.modify .loop c.key fun c => c.toSplice d.key).held :=
      mem_modify_of_ne hd hne
    refine ⟨⟨_, mem_modify_of_ne (f := fun p => p.toSplice c.key) hc' hne.symm, rfl, rfl⟩,
      _, mem_modify_self (f := fun p => p.toSplice c.key) hd', rfl, rfl⟩

/-- Pairing, in both of its outcomes. -/
theorem Carries.pair (h : Carries c.key s) (hi : s.Inv) (hc : ⟨.loop, c⟩ ∈ s.held)
    (hadmitted : c.Admitted s.cfg) {side : Fin 2} {relay : RelayId}
    (hinv : (s.pair c.key side relay).Inv) : (s.pair c.key side relay).Wired := by
  unfold Rendezvous.pair at hinv ⊢
  cases hname : (s.waiting (1 - side)).lookup relay with
  | none =>
      rw [hname] at hinv
      exact h.wait hc hadmitted hinv
  | some other =>
      rw [hname] at hinv
      dsimp only at hinv ⊢
      have hunwait := h.unwait (1 - side) relay
      cases hfind : (s.unwait (1 - side) relay).find .loop other with
      | none =>
          rw [hfind] at hinv
          exact hunwait.wait hc hadmitted hinv
      | some d =>
          rw [hfind] at hinv
          obtain ⟨hd, rfl⟩ := mem_of_find (s := s) hfind
          dsimp only at hinv ⊢
          split
          · rename_i hdead
            rw [if_pos hdead] at hinv
            exact hunwait.wait hc hadmitted hinv
          · rename_i hlive
            rw [if_neg hlive] at hinv
            have hwaits := (hi.named_eq hname hd rfl).2.1
            exact hunwait.splice hc hadmitted hd hwaits (Bool.eq_false_of_not_eq_true hlive) hinv

theorem cfg_replaceEarlier (s : Rendezvous) (side : Fin 2) (relay : RelayId) :
    (s.replaceEarlier side relay).cfg = s.cfg := by
  unfold Rendezvous.replaceEarlier
  cases (s.waiting side).lookup relay with
  | none => rfl
  | some old => rfl

/-- A leg that has its side replaces an earlier one and is paired or waits. -/
theorem Carries.join (h : Carries c.key s) (hi : s.Inv) (hc : ⟨.loop, c⟩ ∈ s.held)
    (hadmitted : c.Admitted s.cfg) {side : Fin 2} {relay : RelayId} (hside : c.relaySide = some side)
    (hid : c.relayId = relay) : ((s.replaceEarlier side relay).pair c.key side relay).Wired := by
  obtain ⟨hinv, hfree, hkept⟩ := hi.replaceEarlier side relay
  have hmem := hkept _ hc hadmitted.new
  refine (h.replaceEarlier side relay).pair hinv hmem ?_
    (hinv.pair hmem hadmitted.new hside hid hfree)
  rw [cfg_replaceEarlier]
  exact hadmitted

/-- A connection that is no leg is written by the loop. -/
theorem Wired.carries (hw : s.Wired) (hidle : s.doing = .nothing) (hc : ⟨.loop, c⟩ ∈ s.held)
    (hnew : c.mode = .new) {f : Conn → Conn} (hf : ∀ d, (f d).key = d.key)
    (hmode : (f c).mode ≠ .splice) : Carries c.key (s.modify .loop c.key f) := by
  have hsplice : c.mode ≠ .splice := by
    rw [hnew]
    exact Mode.noConfusion
  have hcontrol : c.mode ≠ .control := by
    rw [hnew]
    exact Mode.noConfusion
  have hcases : ∀ x ∈ (s.modify .loop c.key f).held,
      x = ⟨.loop, f c⟩ ∨ x ∈ s.held ∧ x.conn.key ≠ c.key :=
    fun x hx => mem_modify_cases hw.inv.distinct hc hx
  have hedit : Edits Still s (s.modify .loop c.key f) :=
    Edits.modify_at Still.refl hw.inv.distinct hc (Still.apart (hf c) hsplice hmode)
  have htame : Tame s (s.modify .loop c.key f) := Tame.modify_at hw.inv.distinct hc hcontrol (hf c)
  refine ⟨hw.inv.distinct.modify hf, fun x hx => ?_, fun e he x hx => ?_, fun e he hne => ?_,
    hw.pipes.still hedit, hw.knows.mono fun _ => htame.control, hidle⟩
  · rcases hcases x hx with rfl | ⟨hx, -⟩
    · exact (hf c).symm ▸ hw.inv.old _ hc
    · exact hw.inv.old x hx
  · rcases hcases x hx with rfl | ⟨hx, -⟩
    · exact (hf c).symm ▸ (hw.inv.gone e he).2 _ hc
    · exact (hw.inv.gone e he).2 x hx
  · rcases mem_all.mp he with ⟨x, hx, rfl⟩ | he
    · rcases hcases x hx with rfl | ⟨hx, -⟩
      · exact absurd (hf c) hne
      · exact hw.ready x.conn (mem_all_of_held hx)
    · exact hw.ready e (mem_all.mpr (.inr he))

/-- What is known of a connection without a mode: its reader holds its bytes
from the first on. -/
theorem Conn.Ready.reading {cfg : RendezvousConfig} (h : c.Ready cfg) (hnew : c.mode = .new) :
    c.out = [] ∧ c.written = [] ∧
      (c.dead = false → FrameReader.Reading kMaxFrame [] c.received c.reader) := by
  unfold Conn.Ready at h
  rw [hnew] at h
  exact h

/-- The loop has taken the first frame of the new connection `c`. -/
theorem Wired.onRelayJoin (hw : s.Wired) (hidle : s.doing = .nothing) (hc : ⟨.loop, c⟩ ∈ s.held)
    (hnew : c.mode = .new) {r : FrameReader} {msg : Bytes}
    (hall : c.received = lengthPrefixed msg ++ r.buf) (hpeek : peekType msg = some .relayJoin) :
    ((s.modify .loop c.key fun d => { d with reader := r }).onRelayJoin
      { c with reader := r } msg).Wired := by
  obtain ⟨hout, hwritten, -⟩ := (hw.ready c (mem_all_of_held hc)).reading hnew
  have hread : Calms s (s.modify .loop c.key fun d => { d with reader := r }) :=
    Calms.modify_data fun _ => ⟨rfl, rfl, id, rfl, rfl, rfl, rfl⟩
  unfold Rendezvous.onRelayJoin
  cases Rendezvous.joinSide (s.modify .loop c.key fun d => { d with reader := r }) msg with
  | none =>
      refine hw.quiet (hread.trans (Calms.killAt _ _ _)) ?_ hw.knows
      rw [Rendezvous.killAt, modify_modify]
      · exact Edits.modify_at (Quiet.refl s.cfg) hw.inv.distinct hc
          (Quiet.fed_dead (.inl hnew) rfl rfl rfl rfl rfl)
      · exact fun _ => rfl
  | some joined =>
      obtain ⟨relay, side⟩ := joined
      dsimp only
      have hraw : Calms s ((s.modify .loop c.key fun d => { d with reader := r }).modify .loop c.key
          fun d => d.toRaw r.buf msg) :=
        hread.trans (Calms.modify_data fun _ => ⟨rfl, rfl, id, rfl, rfl, rfl, rfl⟩)
      split
      · refine hw.quiet (hraw.trans (Calms.killAt _ _ _)) ?_ hw.knows
        rw [Rendezvous.killAt, modify_modify (f := fun d => { d with reader := r }), modify_modify]
        · exact Edits.modify_at (Quiet.refl s.cfg) hw.inv.distinct hc
            (Quiet.fed_dead (.inl hnew) rfl rfl rfl rfl rfl)
        · exact fun _ => rfl
        · exact fun _ => rfl
      · rename_i hroom
        have hmem : ⟨.loop, { c with reader := r }⟩ ∈
            (s.modify .loop c.key fun d => { d with reader := r }).held :=
          mem_modify_self (f := fun d => { d with reader := r }) hc
        have hmem' := mem_modify_self (f := fun d => d.toRaw r.buf msg) hmem
        have hinv := (hw.inv.calms hraw).calms
          (calms_takeSide (hw.inv.calms hraw).distinct hmem' hnew relay side)
        have hcarries : Carries c.key (((s.modify .loop c.key fun d => { d with reader := r }).modify
            .loop c.key fun d => d.toRaw r.buf msg).modify .loop c.key fun d =>
              d.takeSide relay side) := by
          rw [modify_modify (f := fun d => { d with reader := r }), modify_modify]
          · refine hw.carries hidle hc hnew (fun _ => rfl) ?_
            exact fun hsplice => Mode.noConfusion (hnew.symm.trans hsplice)
          · exact fun _ => rfl
          · exact fun _ => rfl
        have hadmitted : Conn.Admitted s.cfg
            ((({ c with reader := r } : Conn).toRaw r.buf msg).takeSide relay side) :=
          ⟨hnew, hout, hwritten, ⟨⟨r.buf, hall.symm⟩, msg, rfl, hpeek⟩, hall, Nat.le_of_not_gt hroom⟩
        exact Carries.join (c := (({ c with reader := r } : Conn).toRaw r.buf msg).takeSide relay side)
          hcarries hinv (mem_modify_self (f := fun d => d.takeSide relay side) hmem') hadmitted rfl rfl

/-- The first frame of the new connection `c` is for the service. -/
theorem Wired.openControl (P : Primitives) (hw : s.Wired) (hidle : s.doing = .nothing)
    (hc : ⟨.loop, c⟩ ∈ s.held) (hnew : c.mode = .new) (r : FrameReader) (msg : Bytes) :
    ((s.modify .loop c.key fun d => { d with reader := r }).openControl
      { c with reader := r } msg).Wired := by
  have hread : Calms s (s.modify .loop c.key fun d => { d with reader := r }) :=
    Calms.modify_data fun _ => ⟨rfl, rfl, id, rfl, rfl, rfl, rfl⟩
  have hmem : ⟨.loop, { c with reader := r }⟩ ∈
      (s.modify .loop c.key fun d => { d with reader := r }).held :=
    mem_modify_self (f := fun d => { d with reader := r }) hc
  have hinv := (hw.inv.calms hread).openControl hmem hnew msg
  unfold Rendezvous.openControl at hinv ⊢
  dsimp only at hinv ⊢
  rw [modify_modify (f := fun d => { d with reader := r }) (fun _ => rfl)] at hinv ⊢
  have hcarries := hw.carries hidle hc hnew
    (f := (fun d => { d with mode := .control }) ∘ fun d => { d with reader := r }) (fun _ => rfl)
    Mode.noConfusion
  generalize hf : ((fun d => { d with mode := .control }) ∘ fun d => { d with reader := r } :
    Conn → Conn) = f at hinv hcarries ⊢
  have hcontrol : (s.modify .loop c.key f).Control c.key := by
    refine ⟨hw.inv.old _ hc, fun x hx hkey => ?_⟩
    rcases mem_modify_cases hw.inv.distinct hc hx with rfl | ⟨-, hne⟩
    · exact hf ▸ rfl
    · exact absurd hkey hne
  refine ⟨hinv, fun e he => ?_, ?_, ?_, ?_, ?_⟩
  · by_cases hkey : e.key = c.key
    · rcases mem_all.mp he with ⟨x, hx, rfl⟩ | he
      · have hmode := hcontrol.2 x hx hkey
        unfold Conn.Ready
        rw [hmode]
        trivial
      · exact absurd hkey.symm ((hw.inv.gone e he).2 _ hc)
    · exact hcarries.ready e he hkey
  · refine hcarries.pipes.still (.of_held Still.refl rfl rfl rfl rfl fun key hholds => ?_)
    rw [hcarries.idle] at hholds
    exact hholds.elim
  · refine hcarries.knows.step (P := P) (e := .opened c.key c.peer) fun key peer he => ?_
    cases he
    exact hcontrol
  · intro key msg' hd
    cases hd
    exact hcontrol
  · intro src dst id again hd
    cases hd

/-- A frame changes the reader of a control connection. -/
theorem Wired.reads (hw : s.Wired) (hc : ⟨.loop, c⟩ ∈ s.held) (hmode : c.mode = .control)
    (r : FrameReader) : (s.modify .loop c.key fun d => { d with reader := r }).Wired := by
  refine hw.quiet (Calms.modify_data fun _ => ⟨rfl, rfl, id, rfl, rfl, rfl, rfl⟩) ?_ hw.knows
  refine Edits.modify_at (Quiet.refl s.cfg) hw.inv.distinct hc (Quiet.control ?_ rfl hmode)
  rw [hmode]
  exact Mode.noConfusion

/-- A connection written as it was. -/
theorem modify_same (hd : s.Distinct) (hc : ⟨p, c⟩ ∈ s.held) {f : Conn → Conn} (hf : f c = c) :
    s.modify p c.key f = s := by
  unfold modify
  have hsame : (s.held.map fun h =>
      if h.place = p ∧ h.conn.key = c.key then { h with conn := f h.conn } else h) = s.held := by
    refine (List.map_congr_left fun x hx => ?_).trans (List.map_id s.held)
    split
    · rename_i hat
      obtain rfl := hd.eq hx hc hat.2
      exact congrArg (Held.mk p) hf
    · rfl
  rw [hsame]

/-- A turn of the frame loop keeps the pipes, in each mode and for each frame. -/
theorem Wired.takeFrame (hw : s.Wired) (hidle : s.doing = .nothing) (key : ConnKey) (now : Instant)
    (v : Verdict) : (s.takeFrame P key now v).Wired := by
  unfold Rendezvous.takeFrame
  cases hfind : s.find .loop key with
  | none => exact hw
  | some c =>
      obtain ⟨hc, rfl⟩ := mem_of_find hfind
      dsimp only
      split
      · exact hw
      rename_i hlive
      simp only [Bool.or_eq_true, not_or, Bool.not_eq_true] at hlive
      cases hmode : c.mode with
      | new =>
          obtain ⟨-, -, hreading⟩ := (hw.ready c (mem_all_of_held hc)).reading hmode
          have hread := hreading hlive.1
          rcases FrameReader.next_eq hread with ⟨-, hnext⟩ | ⟨msg, rest, -, -, hbuf, hnext⟩
          · rw [hnext, modify_same hw.inv.distinct hc rfl]
            dsimp only
            split
            · exact hw.killAt _ _
            · exact hw
          · rw [hnext]
            unfold Rendezvous.onFrame
            dsimp only
            split
            · rename_i hpeek
              refine hw.onRelayJoin hidle hc hmode ?_ hpeek
              rw [hread.split, hbuf]
              rfl
            · exact hw.openControl P hidle hc hmode _ msg
      | control =>
          have hreads := hw.reads hc hmode c.reader.next.2
          cases c.reader.next.1 with
          | none =>
              dsimp only
              split
              · exact hreads.killAt _ _
              · exact hreads
          | some msg =>
              unfold Rendezvous.onFrame
              exact hreads.onControl c.key msg now v
      | relayWaiting =>
          rw [Conn.raw, hmode] at hlive
          exact absurd hlive.2 (by decide)
      | splice =>
          rw [Conn.raw, hmode] at hlive
          exact absurd hlive.2 (by decide)

/-! ## Passing on what came early

Two actions, one for each direction; between them the loop does nothing else. -/

/-- What is left once the loop has passed on what `src` sent early. -/
def Doing.after (src dst : ConnKey) (relay : RelayId) (again : Bool) : Doing :=
  if again then .passing dst src relay false else .nothing

theorem passed_fields (s : Rendezvous) (src dst : ConnKey) (relay : RelayId) (again : Bool) :
    (s.passed src dst relay again).held = s.held ∧ (s.passed src dst relay again).cfg = s.cfg ∧
      (s.passed src dst relay again).closed = s.closed ∧
      (s.passed src dst relay again).nextKey = s.nextKey ∧
      (s.passed src dst relay again).service = s.service ∧
      (s.passed src dst relay again).doing = Doing.after src dst relay again := by
  unfold passed Doing.after
  cases again with
  | true => exact ⟨rfl, rfl, rfl, rfl, rfl, rfl⟩
  | false => exact ⟨rfl, rfl, rfl, rfl, rfl, rfl⟩

/-- The two ends of a pair that the loop is passing bytes of. -/
theorem Wired.ends (hw : s.Wired) {src dst : ConnKey} {relay : RelayId} {again : Bool}
    (hd : s.doing = .passing src dst relay again) : ∃ c d, ⟨.loop, c⟩ ∈ s.held ∧ ⟨.loop, d⟩ ∈ s.held ∧
      c.key = src ∧ d.key = dst ∧ d.key ≠ c.key ∧ c.mode = .splice ∧ c.partner = d.key ∧
      d.mode = .splice ∧ d.partner = c.key := by
  obtain ⟨⟨x, hx, hxplace, hxkey⟩, y, hy, hyplace, hykey⟩ := hw.stays src dst relay again hd
  obtain ⟨hleft, hright, -⟩ := hw.inv.passing src dst relay again hd
  obtain ⟨hleg, hpartner⟩ := hleft x hx hxkey
  obtain ⟨hleg', hpartner'⟩ := hright y hy hykey
  have hopp := (hw.inv.paired x hx hleg).2 y hy (hykey.trans hpartner.symm)
  refine ⟨x.conn, y.conn, hxplace ▸ hx, hyplace ▸ hy, hxkey, hykey, fun hsame => ?_, hleg,
    hpartner.trans hykey.symm, hleg', hpartner'.trans hxkey.symm⟩
  have heq := hw.inv.distinct.eq hy hx hsame
  exact hopp.ne (congrArg (fun z : Held => z.conn.relaySide) heq)

/-- The loop has passed on what `c` sent early to `d`, or both are dead. -/
theorem Wired.exchange (hw : s.Wired) (out : Bytes) (dead : Bool) (hinv : s'.Inv)
    (hc : ⟨.loop, c⟩ ∈ s.held) (hd : ⟨.loop, d⟩ ∈ s.held) (hne : d.key ≠ c.key)
    (hleg : c.mode = .splice)
    (hpartner : c.partner = d.key) (hdleg : d.mode = .splice) (hback : d.partner = c.key)
    (hmem : ∀ x ∈ s'.held, x = ⟨.loop, { c with relayEarly := [], dead := dead || c.dead }⟩ ∨
      x = ⟨.loop, { d with out := out, dead := dead || d.dead }⟩ ∨
      x ∈ s.held ∧ x.conn.key ≠ c.key ∧ x.conn.key ≠ d.key)
    (hcheld : ⟨.loop, { c with relayEarly := [], dead := dead || c.dead }⟩ ∈ s'.held)
    (hdheld : ⟨.loop, { d with out := out, dead := dead || d.dead }⟩ ∈ s'.held)
    (hkeys : s'.keys = s.keys) (hcfg : s'.cfg = s.cfg) (hclosed : s'.closed = s.closed)
    (hnext : s'.nextKey = s.nextKey) (hout : d.out ++ c.relayEarly = out ∨ dead = true ∧ d.out = out)
    (hholds : ∀ k, k ≠ c.key → (dead = true → k ≠ d.key) → s.doing.holds k → s'.doing.holds k)
    (hknows : s'.service.Knows s.Control)
    (hdoing : s'.doing = .nothing ∨ ∃ relay, s'.doing = .passing d.key c.key relay false) :
    s'.Wired := by
  obtain ⟨hj, hcout⟩ := (hw.ready c (mem_all_of_held hc)).leg hleg
  obtain ⟨hdj, -⟩ := (hw.ready d (mem_all_of_held hd)).leg hdleg
  have hflow := hw.pipes.flow d (mem_all_of_held hd) hdleg c (mem_all_of_held hc) hback.symm
  have hprefix : d.written ++ out ++ [] <+: joinOk ++ c.payload := by
    rw [List.append_nil]
    rcases hout with rfl | ⟨-, rfl⟩
    · rw [← List.append_assoc]
      exact hflow.carried
    · exact (List.prefix_append _ c.relayEarly).trans hflow.carried
  have hroom : out.length ≤ outLimit s.cfg := by
    have hlimit := hflow.room
    rcases hout with rfl | ⟨-, rfl⟩
    · rwa [List.length_append]
    · exact Nat.le_trans (Nat.le_add_right _ _) hlimit
  have htame : Tame s s' := by
    refine ⟨Nat.le_of_eq hnext.symm, fun y hy _ => ?_⟩
    rcases hmem y hy with rfl | rfl | ⟨hy, -, -⟩
    · exact ⟨_, hc, rfl, id⟩
    · exact ⟨_, hd, rfl, id⟩
    · exact ⟨y, hy, rfl, id⟩
  refine ⟨hinv, ready_two hw.ready hcfg hclosed hmem ?_ ?_, ?_, hknows.mono fun _ => htame.control,
    fun key msg hopened => ?_, fun src dst id again hstays => ?_⟩
  · exact Conn.Ready.of_leg hleg hj hcout
  · exact Conn.Ready.of_leg hdleg hdj hroom
  · refine hw.pipes.transfer hw.inv hc hd hne hleg hpartner hdleg hback hmem hkeys hcfg hclosed
      hnext
      ⟨rfl, rfl, rfl, rfl, rfl, fun h => ?_⟩ ⟨rfl, rfl, rfl, rfl, rfl, fun h => ?_⟩
      ⟨hleg, hpartner, hprefix, hroom⟩ (fun hlive => ⟨?_, .inl rfl⟩) fun k hk hkd =>
        hholds k hk fun h => hkd ((Bool.or_eq_true _ _).mpr (.inl h))
    · exact (Bool.or_eq_true _ _).mpr (.inr h)
    · exact (Bool.or_eq_true _ _).mpr (.inr h)
    · obtain ⟨hnotdead, halive⟩ := Bool.or_eq_false_iff.mp hlive
      rcases hout with rfl | ⟨hdead, -⟩
      · rw [List.append_nil, ← List.append_assoc]
        exact (hw.pipes.whole _ hd ⟨hdleg, halive⟩ c (mem_all_of_held hc) hback.symm).1
      · cases hnotdead.symm.trans hdead
  · rcases hdoing with hnothing | ⟨relay, hpassing⟩
    · cases hnothing.symm.trans hopened
    · cases hpassing.symm.trans hopened
  · rcases hdoing with hnothing | ⟨relay, hpassing⟩
    · cases hnothing.symm.trans hstays
    · cases hpassing.symm.trans hstays
      exact ⟨⟨_, hdheld, rfl, rfl⟩, _, hcheld, rfl, rfl⟩

/-- What is left to do behind a passage is what there was, but for the leg whose
bytes were passed on. -/
theorem Doing.holds_after {src dst k : ConnKey} {relay : RelayId} {again : Bool} (hk : k ≠ src)
    (hholds : (Doing.passing src dst relay again).holds k) :
    (Doing.after src dst relay again).holds k := by
  rcases hholds with hsame | ⟨hagain, hsame⟩
  · exact absurd hsame hk
  · rw [hagain]
    exact .inl hsame

/-- Behind a passage there is nothing to do, or the other way round to pass on. -/
theorem Doing.after_cases (src dst : ConnKey) (relay : RelayId) (again : Bool) :
    Doing.after src dst relay again = .nothing ∨
      ∃ id, Doing.after src dst relay again = .passing dst src id false := by
  cases again with
  | true => exact .inr ⟨relay, rfl⟩
  | false => exact .inl rfl

/-- Early bytes are passed on whole, or both legs are killed because the budget
does not allow it. -/
theorem Wired.passEarly (hw : s.Wired) {src dst : ConnKey} {relay : RelayId} {again : Bool}
    (hdoing : s.doing = .passing src dst relay again) (now : Instant) :
    (s.passEarly src dst relay again now).Wired := by
  have hinv := hw.inv.passEarly (hw.inv.passing src dst relay again hdoing) relay again now
  obtain ⟨c, d, hc, hd, rfl, rfl, hne, hleg, hpartner, hdleg, hback⟩ := hw.ends hdoing
  have hafter : ∀ k, k ≠ c.key → s.doing.holds k → (Doing.after c.key d.key relay again).holds k :=
    fun k hk hholds => Doing.holds_after hk (hdoing ▸ hholds)
  have hnext := Doing.after_cases c.key d.key relay again
  unfold Rendezvous.passEarly at hinv ⊢
  rw [show s.find .loop c.key = some c from hw.inv.distinct.find hc] at hinv ⊢
  dsimp only at hinv ⊢
  have hsent : ⟨.loop, { c with relayEarly := [] }⟩ ∈
      (s.modify .loop c.key fun c => { c with relayEarly := [] }).held :=
    mem_modify_self (f := fun c => { c with relayEarly := [] }) hc
  have hkept : ⟨.loop, d⟩ ∈ (s.modify .loop c.key fun c => { c with relayEarly := [] }).held :=
    mem_modify_of_ne hd hne
  have hkeys : ((s.modify .loop c.key fun c => { c with relayEarly := [] }).held.map
      fun x => x.conn.key) = s.held.map fun x => x.conn.key :=
    keys_modify (f := fun c => { c with relayEarly := [] }) fun _ => rfl
  split
  · rename_i hempty
    rw [if_pos hempty] at hinv
    obtain ⟨hheld, hcfg, hclosed, hkey, hservice, hdo⟩ :=
      passed_fields (s.modify .loop c.key fun c => { c with relayEarly := [] }) c.key d.key relay again
    have hearly : c.relayEarly = [] := List.isEmpty_iff.mp hempty
    refine hw.exchange d.out false hinv hc hd hne hleg hpartner hdleg hback
      (fun x hx => ?_) (hheld ▸ hsent) (hheld ▸ hkept) (keys_eq ?_ hclosed) hcfg hclosed hkey
      (.inl ?_) ?_ ?_ ?_
    · rw [hheld] at hx
      rcases mem_modify_cases (f := fun c => { c with relayEarly := [] }) hw.inv.distinct hc hx with
        rfl | ⟨hx, hxc⟩
      · exact .inl rfl
      · by_cases hxd : x.conn.key = d.key
        · exact .inr (.inl (hw.inv.distinct.eq hx hd hxd))
        · exact .inr (.inr ⟨hx, hxc, hxd⟩)
    · rw [hheld]
      exact hkeys
    · rw [hearly, List.append_nil]
    · rw [hdo]
      exact fun k hk _ => hafter k hk
    · rw [hservice]
      exact hw.knows
    · rw [hdo]
      exact hnext
  · rename_i hsome
    rw [if_neg hsome] at hinv
    have hknows := hw.knows.charge relay c.relayEarly.length now
    split
    · rename_i hok
      rw [if_pos hok] at hinv
      obtain ⟨hheld, hcfg, hclosed, hkey, hservice, hdo⟩ := passed_fields
        ((Rendezvous.charge (s.modify .loop c.key fun c => { c with relayEarly := [] }) relay
          c.relayEarly.length now).2.modify .loop d.key fun d => { d with out := d.out ++ c.relayEarly })
        c.key d.key relay again
      have hcmem := mem_modify_of_ne (p := .loop) (f := fun d => { d with out := d.out ++ c.relayEarly })
        hsent hne.symm
      have hdmem := mem_modify_self (f := fun d => { d with out := d.out ++ c.relayEarly }) hkept
      refine hw.exchange (d.out ++ c.relayEarly) false hinv hc hd hne hleg hpartner
        hdleg hback (fun x hx => ?_) (hheld ▸ hcmem) (hheld ▸ hdmem) (keys_eq ?_ hclosed) hcfg hclosed
        hkey (.inl rfl) ?_ ?_ ?_
      · rw [hheld] at hx
        exact mem_modify_two (f := fun c => { c with relayEarly := [] })
          (g := fun d => { d with out := d.out ++ c.relayEarly }) hw.inv.distinct hc hd hne hx
          fun _ => rfl
      · rw [hheld]
        exact (keys_modify (f := fun d => { d with out := d.out ++ c.relayEarly })
          fun _ => rfl).trans hkeys
      · rw [hdo]
        exact fun k hk _ => hafter k hk
      · rw [hservice]
        exact hknows
      · rw [hdo]
        exact hnext
    · rename_i hrefused
      rw [if_neg hrefused] at hinv
      have hdead := mem_modify_self (f := Conn.kill) hsent
      have hcmem := mem_modify_of_ne (p := .loop) (f := Conn.kill) hdead hne.symm
      have hdkept := mem_modify_of_ne (p := .loop) (f := Conn.kill) hkept hne
      have hdmem := mem_modify_self (f := Conn.kill) hdkept
      refine hw.exchange d.out true hinv hc hd hne hleg hpartner hdleg hback
        (fun x hx => ?_) hcmem hdmem (keys_eq ?_ rfl) rfl rfl rfl (.inr ⟨rfl, rfl⟩)
        (fun k hk hkd hholds => ?_) hknows (.inl rfl)
      · have hfuse := modify_modify (s := s) (p := .loop) (k := c.key) (g := Conn.kill)
          (f := fun c => { c with relayEarly := [] }) fun _ => rfl
        have hx' : x ∈ ((s.modify .loop c.key (Conn.kill ∘ fun c =>
            { c with relayEarly := [] })).modify .loop d.key Conn.kill).held := by
          rw [← hfuse]
          exact hx
        exact mem_modify_two hw.inv.distinct hc hd hne hx' fun _ => rfl
      · refine (keys_modify (f := Conn.kill) fun _ => rfl).trans ?_
        exact (keys_modify (f := Conn.kill) fun _ => rfl).trans hkeys
      · rw [hdoing] at hholds
        rcases hholds with hsame | ⟨-, hsame⟩
        · exact hk hsame
        · exact hkd rfl hsame

/-- The loop has nothing left to do for a connection it has opened. -/
theorem Wired.unopened (hw : s.Wired) {msg : Bytes} (hdoing : s.doing = .opened key msg) :
    Wired { s with doing := .nothing } := by
  have hinv : Inv { s with doing := .nothing } := by
    refine hw.inv.setDoing fun src dst id again hd => ?_
    cases hd
  have hpipes : Pipes { s with doing := .nothing } := by
    refine hw.pipes.still (.of_held Still.refl rfl rfl rfl rfl fun k hholds => ?_)
    rw [hdoing] at hholds
    exact hholds
  exact ⟨hinv, hw.ready, hpipes, hw.knows, fun key' msg' hd => Doing.noConfusion hd,
    fun src dst id again hd => Doing.noConfusion hd⟩

/-- What was left to do is done before the loop does anything else. -/
theorem Wired.goOn (hw : s.Wired) (now : Instant) (v : Verdict) : (s.goOn P now v).Wired := by
  unfold Rendezvous.goOn
  cases hdoing : s.doing with
  | nothing => exact hw
  | opened key msg => exact (hw.unopened hdoing).onControl key msg now v
  | passing src dst relay again => exact hw.passEarly hdoing now

/-! ## Moving, closing

A leg takes its pipe along, and a closed one leaves it as it was. -/

/-- The connections have other places. -/
structure Moves (s s' : Rendezvous) : Prop where
  edits : Edits Eq s s'
  service : s'.service = s.service
  doing : s'.doing = s.doing

theorem Moves.refl (s : Rendezvous) : Moves s s := ⟨.refl (fun _ => rfl) s, rfl, rfl⟩

theorem Moves.trans (h : Moves s s') (h' : Moves s' s'') : Moves s s'' :=
  ⟨Edits.trans (R := Eq) (fun hcd hde => hcd.trans hde) h.edits h'.edits,
    h'.service.trans h.service, h'.doing.trans h.doing⟩

/-- Connections that only change their place keep the wiring. -/
theorem Wired.moves (hw : s.Wired) (h : Moves s s') (hinv : s'.Inv)
    (hstays : ∀ src dst id again, s.doing = .passing src dst id again →
      (∃ x ∈ s'.held, x.place = .loop ∧ x.conn.key = src) ∧
        ∃ x ∈ s'.held, x.place = .loop ∧ x.conn.key = dst) : s'.Wired := by
  have htame : Tame s s' := by
    refine ⟨Nat.le_of_eq h.edits.nextKey.symm, fun y hy _ => ?_⟩
    obtain ⟨x, hx, hsame⟩ := h.edits.mem_held hy
    exact ⟨x, hx, congrArg Conn.key hsame, fun hmode => hsame ▸ hmode⟩
  have hquiet : Edits (Quiet s.cfg) s s' :=
    Edits.mono (R := Eq) (fun hsame => hsame ▸ Quiet.refl s.cfg _) h.edits
  refine ⟨hinv, ready_edits hw.ready hquiet, hw.pipes.still (hquiet.mono Quiet.still),
    h.service ▸ hw.knows.mono fun _ => htame.control, ?_, ?_⟩
  · intro key msg hd
    exact htame.control (hw.opened key msg (h.doing.symm.trans hd))
  · intro src dst id again hd
    exact hstays src dst id again (h.doing.symm.trans hd)

theorem moves_map (s : Rendezvous) {g : Held → Held} (hg : ∀ x, (g x).conn = x.conn) (n : Nat) :
    Moves s { s with held := s.held.map g, nextWorker := n } :=
  ⟨⟨⟨g, rfl, fun x _ => (hg x).symm⟩, rfl, rfl, rfl, fun _ h => h⟩, rfl, rfl⟩

/-- A pair that is handed off keeps everything but its place. -/
theorem moves_handOffPair (s : Rendezvous) (pair : ConnKey × ConnKey) :
    Moves s (s.handOffPair pair) := by
  unfold handOffPair
  cases s.find .loop pair.1 with
  | none => exact Moves.refl s
  | some a =>
      cases s.find .loop pair.2 with
      | none => exact Moves.refl s
      | some b =>
          dsimp only
          split
          · exact Moves.refl s
          · refine moves_map s (fun x => ?_) _
            split <;> rfl

theorem moves_handOff (s : Rendezvous) : Moves s s.handOff := by
  have hfold : ∀ (l : List (ConnKey × ConnKey)) (s : Rendezvous), Moves s (l.foldl handOffPair s) := by
    intro l
    induction l with
    | nil => exact Moves.refl
    | cons pair l ih => exact fun s => (moves_handOffPair s pair).trans (ih _)
  exact (hfold s.spliced s).trans ⟨.of_held (fun _ => rfl) rfl rfl rfl rfl fun _ h => h, rfl, rfl⟩

theorem moves_takeInbox (s : Rendezvous) (i : Nat) : Moves s (s.takeInbox i) := by
  refine moves_map s (fun x => ?_) s.nextWorker
  split <;> rfl

/-- Handing off moves pairs, both legs at once. -/
theorem Wired.handOff (hw : s.Wired) (hidle : s.doing = .nothing) : s.handOff.Wired := by
  refine hw.moves (moves_handOff s) hw.inv.handOff fun src dst id again hd => ?_
  cases hidle.symm.trans hd

/-- A worker takes what is in its inbox as it is. -/
theorem Wired.takeInbox (hw : s.Wired) (i : Nat) : (s.takeInbox i).Wired := by
  have hloop : ∀ {key : ConnKey}, (∃ x ∈ s.held, x.place = .loop ∧ x.conn.key = key) →
      ∃ x ∈ (s.takeInbox i).held, x.place = .loop ∧ x.conn.key = key := by
    rintro key ⟨x, hx, hplace, hkey⟩
    refine ⟨x, List.mem_map.mpr ⟨x, hx, if_neg fun hinbox => ?_⟩, hplace, hkey⟩
    exact Place.noConfusion (hplace.symm.trans hinbox)
  refine hw.moves (moves_takeInbox s i) (hw.inv.takeInbox i) fun src dst id again hd => ?_
  obtain ⟨hsrc, hdst⟩ := hw.stays src dst id again hd
  exact ⟨hloop hsrc, hloop hdst⟩

theorem service_forget (s : Rendezvous) (c : Conn) : (s.forget c).service =
    if c.mode = .control then s.service.onClose c.key else s.service := by
  unfold Rendezvous.forget
  cases hmode : c.mode with
  | new => exact (if_neg Mode.noConfusion).symm
  | splice => exact (if_neg Mode.noConfusion).symm
  | control => exact (if_pos rfl).symm
  | relayWaiting =>
      rw [if_neg Mode.noConfusion]
      cases c.relaySide with
      | none => rfl
      | some side =>
          dsimp only
          split
          · rfl
          · rfl

/-- A connection goes from its map to the closed ones. -/
theorem Wired.leave (hw : s.Wired) (hc : ⟨p, c⟩ ∈ s.held) (hinv : s'.Inv)
    (hheld : s'.held = s.held.eraseP fun x => x.place = p && x.conn.key = c.key)
    (hclosed : s'.closed = c :: s.closed) (hcfg : s'.cfg = s.cfg) (hnext : s'.nextKey = s.nextKey)
    (hdoing : s'.doing = s.doing) (hknows : s'.service.Knows s.Control)
    (hidle : p = .loop → s.doing = .nothing) : s'.Wired := by
  have hsub : ∀ x ∈ s'.held, x ∈ s.held := fun x hx => List.mem_of_mem_eraseP (hheld ▸ hx)
  have hall : ∀ e ∈ s'.all, e ∈ s.all := by
    intro e he
    rcases mem_all.mp he with ⟨x, hx, rfl⟩ | he
    · exact mem_all_of_held (hsub x hx)
    · rw [hclosed] at he
      rcases List.mem_cons.mp he with rfl | he
      · exact mem_all_of_held hc
      · exact mem_all.mpr (.inr he)
  have hkeys : ∀ k ∈ s.keys, k ∈ s'.keys := by
    intro k hk
    obtain ⟨e, he, rfl⟩ := List.mem_map.mp hk
    rcases mem_all.mp he with ⟨x, hx, rfl⟩ | he
    · by_cases hkey : x.conn.key = c.key
      · rw [hkey]
        exact List.mem_map_of_mem (mem_all.mpr (.inr (hclosed ▸ List.mem_cons_self)))
      · refine List.mem_map_of_mem (mem_all_of_held (hheld ▸ (List.mem_eraseP_of_neg ?_).mpr hx))
        exact fun htest => hkey (of_decide_eq_true (Bool.and_eq_true_iff.mp htest).2)
    · exact List.mem_map_of_mem (mem_all.mpr (.inr (hclosed ▸ List.mem_cons_of_mem _ he)))
  have htame : Tame s s' := Tame.of_held hsub hnext
  -- the loop has something to do with a leg only while it closes nothing
  have hstays : ∀ {key : ConnKey}, p ≠ .loop → (∃ x ∈ s.held, x.place = .loop ∧ x.conn.key = key) →
      ∃ x ∈ s'.held, x.place = .loop ∧ x.conn.key = key := by
    rintro key hp ⟨x, hx, hplace, hkey⟩
    refine ⟨x, hheld ▸ (List.mem_eraseP_of_neg fun htest => hp ?_).mpr hx, hplace, hkey⟩
    exact (of_decide_eq_true (Bool.and_eq_true_iff.mp htest).1).symm.trans hplace
  refine ⟨hinv, fun e he => hcfg ▸ hw.ready e (hall e he), ⟨?_, ?_, ?_, ?_⟩,
    hknows.mono fun _ => htame.control, ?_, ?_⟩
  · intro e he hleg
    exact hkeys e.partner (hw.pipes.mates e (hall e he) hleg)
  · intro e he hleg
    rw [hnext]
    exact hw.pipes.old e (hall e he) hleg
  · intro e he hleg f hf hkey
    rw [hcfg]
    exact hw.pipes.flow e (hall e he) hleg f (hall f hf) hkey
  · intro x hx hlive f hf hkey
    rw [hdoing]
    exact hw.pipes.whole x (hsub x hx) hlive f (hall f hf) hkey
  · intro key msg hd
    exact htame.control (hw.opened key msg (hdoing.symm.trans hd))
  · intro src dst id again hd
    have hpassing := hdoing.symm.trans hd
    have hp : p ≠ .loop := by
      intro hloop
      cases (hidle hloop).symm.trans hpassing
    obtain ⟨hsrc, hdst⟩ := hw.stays src dst id again hpassing
    exact ⟨hstays hp hsrc, hstays hp hdst⟩

/-- A closed connection is kept as it was, and what it was sent and has received
with it. -/
theorem Wired.close (P : Primitives) (hw : s.Wired) (t : Thread) (key : ConnKey)
    (hidle : t = .loop → s.doing = .nothing) : (s.close t key).Wired := by
  have hinv := hw.inv.close t key
  unfold Rendezvous.close at hinv ⊢
  cases hfind : s.find t.place key with
  | none => exact hw
  | some c =>
      obtain ⟨hc, rfl⟩ := mem_of_find hfind
      rw [hfind] at hinv
      dsimp only at hinv ⊢
      split
      · exact hw
      rename_i hgoes
      rw [if_neg hgoes] at hinv
      have hclosed : s.service.onClose c.key |>.Knows s.Control :=
        hw.knows.step (P := P) (e := .closed c.key) fun _ _ he => ControlService.Event.noConfusion he
      have hforget : Leaves s (if t = .loop then s.forget c else s) ∧
          (if t = .loop then s.forget c else s).service.Knows s.Control := by
        split
        · refine ⟨leaves_forget s c, ?_⟩
          rw [service_forget]
          split
          · exact hclosed
          · exact hw.knows
        · exact ⟨⟨rfl, rfl, rfl, rfl, rfl⟩, hw.knows⟩
      generalize (if t = .loop then s.forget c else s) = s₁ at hinv hforget ⊢
      obtain ⟨hfirst, hknows⟩ := hforget
      obtain ⟨hthen, hservice⟩ := leaves_release s₁ c.ip
      refine hw.leave hc hinv ?_ ?_ (hthen.cfg.trans hfirst.cfg) (hthen.nextKey.trans hfirst.nextKey)
        (hthen.doing.trans hfirst.doing) (hservice ▸ hknows) fun hp => hidle ?_
      · exact congrArg (List.eraseP _) (hthen.held.trans hfirst.held)
      · exact congrArg (c :: ·) (hthen.closed.trans hfirst.closed)
      · cases t with
        | loop => rfl
        | worker i => exact Place.noConfusion hp

/-! ## Runs

The pipes of every leg that ever was, after any actions. -/

/-- The service has been asked something else. -/
theorem Wired.served (hw : s.Wired) {service : ControlService} (hk : service.Knows s.Control) :
    Wired { s with service := service } :=
  hw.quiet (.of_held rfl rfl rfl rfl rfl rfl rfl rfl)
    (.of_held (Quiet.refl s.cfg) rfl rfl rfl rfl fun _ h => h) hk

/-- One action of any thread, at a moment at which the loop has nothing left to
do. -/
theorem Wired.act (hw : s.Wired) (a : Action) (hidle : a.fresh = true → s.doing = .nothing) :
    (s.act P a).Wired := by
  have hother : ∀ {e : ControlService.Event}, (∀ key peer, e ≠ .opened key peer) →
      (s.service.step P e).Knows s.Control := by
    intro e he
    exact hw.knows.step fun key peer heq => absurd heq (he key peer)
  cases a with
  | accept peer now => exact hw.accept peer now
  | read t key got now =>
      cases t with
      | loop => exact hw.readFrom (hidle rfl) key got now
      | worker i => exact hw.workerRead i key got now
  | frame key now v => exact hw.takeFrame (hidle rfl) key now v
  | goOn now v => exact hw.goOn now v
  | flush t key sends => exact hw.flush t.place key sends
  | expire t key now => exact hw.expire t key now
  | follow t key => exact hw.follow t key
  | close t key => exact hw.close P t key fun hloop => hidle (by rw [hloop]; rfl)
  | handOff => exact hw.handOff (hidle rfl)
  | takeInbox i => exact hw.takeInbox i
  | publish i =>
      exact hw.quiet (.of_held rfl rfl rfl rfl rfl rfl rfl rfl)
        (.of_held (Quiet.refl s.cfg) rfl rfl rfl rfl fun _ h => h) hw.knows
  | udp src dgram now admitted =>
      exact hw.served (hother (e := .udp src dgram now admitted) fun _ _ => ControlService.Event.noConfusion)
  | tick now => exact hw.served (hother (e := .tick now) fun _ _ => ControlService.Event.noConfusion)
  | stats now => exact hw.served (hother (e := .stats now) fun _ _ => ControlService.Event.noConfusion)

/-- An action of the loop is taken only with nothing left to do. -/
theorem idle_of_ready {a : Action} (hready : ¬ (a.fresh && !s.doing.isNothing) = true)
    (hfresh : a.fresh = true) : s.doing = .nothing := by
  rw [hfresh, Bool.true_and] at hready
  cases hd : s.doing with
  | nothing => rfl
  | opened key msg => exact absurd (by rw [hd]; rfl) hready
  | passing src dst id again => exact absurd (by rw [hd]; rfl) hready

theorem Wired.step (hw : s.Wired) (a : Action) : (s.step P a).Wired := by
  unfold Rendezvous.step
  split
  · exact hw
  · rename_i hready
    exact hw.act a (idle_of_ready hready)

theorem Wired.init (cfg : RendezvousConfig) (secret : SymKey) : (start cfg secret).Wired := by
  refine ⟨(Books.init cfg secret).inv, ?_, ⟨?_, ?_, ?_, ?_⟩,
    ControlService.Knows.create cfg.registry secret cfg.control.maxUdpSources, ?_, ?_⟩
  · exact fun _ h => absurd h List.not_mem_nil
  · exact fun _ h => absurd h List.not_mem_nil
  · exact fun _ h => absurd h List.not_mem_nil
  · exact fun _ h => absurd h List.not_mem_nil
  · exact fun _ h => absurd h List.not_mem_nil
  · intro key msg hd
    cases hd
  · intro src dst id again hd
    cases hd

/-- The wiring holds after any actions. -/
theorem wired_run (cfg : RendezvousConfig) (secret : SymKey) (actions : List Action) :
    (run (step P) (start cfg secret) actions).Wired :=
  run_invariant (fun _ a hw => hw.step a) (Wired.init cfg secret) actions

/-- What the legs of the spliced pairs have been sent. -/
structure Piped (s : Rendezvous) : Prop where
  /-- Every leg has its partner, a leg whose partner it is. -/
  mates : ∀ p ∈ s.all, p.mode = .splice →
    ∃ c ∈ s.all, c.key = p.partner ∧ c.mode = .splice ∧ c.partner = p.key
  /-- The first thing a leg sent is a frame with a `RelayJoin`; the payload is
  the rest. -/
  joined : ∀ c ∈ s.all, c.mode = .splice →
    ∃ msg, peekType msg = some .relayJoin ∧ c.received = lengthPrefixed msg ++ c.payload
  /-- What a leg has been sent is a prefix of what its partner sent, behind the
  frame that says so. -/
  carried : ∀ p ∈ s.all, p.mode = .splice → ∀ c ∈ s.all, c.key = p.partner →
    p.written <+: joinOk ++ c.payload
  /-- A live leg has been sent all of it but what is held for it. -/
  whole : ∀ x ∈ s.held, x.conn.Live → ∀ c ∈ s.all, c.key = x.conn.partner →
    x.conn.written ++ x.conn.out ++ c.relayEarly = joinOk ++ c.payload
  /-- And once its pair has been made, what is held for it is in its out buffer. -/
  settled : s.doing = .nothing → ∀ x ∈ s.held, x.conn.Live → ∀ c ∈ s.all,
    c.key = x.conn.partner → c.relayEarly = []
  /-- What is held for a leg is limited. -/
  room : ∀ p ∈ s.all, p.mode = .splice → p.out.length ≤ s.cfg.spliceBuffer + joinOk.length

/-- A relay carries bytes: whatever the sockets return and take, and in whatever
order the loop and the workers act, each leg of a pair is sent what the other
sent, in order, with nothing lost, repeated or inserted. -/
theorem splice_carries (cfg : RendezvousConfig) (secret : SymKey) (actions : List Action) :
    (run (step P) (start cfg secret) actions).Piped := by
  have hw := wired_run (P := P) cfg secret actions
  refine ⟨fun p hp hleg => ?_, fun c hc hleg => ?_, fun p hp hleg c hc hkey => ?_,
    fun x hx hlive c hc hkey => (hw.pipes.whole x hx hlive c hc hkey).1,
    fun hidle x hx hlive c hc hkey => ?_, fun p hp hleg => ((hw.ready p hp).leg hleg).2⟩
  · obtain ⟨c, hc, hkey⟩ := List.mem_map.mp (hw.pipes.mates p hp hleg)
    have hflow := hw.pipes.flow p hp hleg c hc hkey
    exact ⟨c, hc, hkey, hflow.leg, hflow.back⟩
  · obtain ⟨⟨rest, hrest⟩, msg, hmsg, hpeek⟩ := ((hw.ready c hc).leg hleg).1
    refine ⟨msg, hpeek, ?_⟩
    rw [Conn.payload, ← hrest, List.drop_left, hmsg]
  · have hcarried := (hw.pipes.flow p hp hleg c hc hkey).carried
    rw [List.append_assoc] at hcarried
    exact (List.prefix_append _ _).trans hcarried
  · have hearly := (hw.pipes.whole x hx hlive c hc hkey).2
    rw [hidle] at hearly
    exact hearly.resolve_right id

end UConnect.Server.Rendezvous
