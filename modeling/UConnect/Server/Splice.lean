/-
  Server/Splice.lean --- a spliced pair as two byte pipes.

  The bytes a leg sends pass through its frame reader, its early buffer and the
  partner's out buffer on their way to the partner's socket.  `Flow` says of two
  legs what is where: what the one has been sent and what is held for it is,
  behind the frame that says the pair is made, a prefix of what the other sent
  behind its join; while the leg lives it is all of it.  Nothing a thread does
  breaks this, whatever the sockets return and in whatever order the threads
  act.

  The service sends frames to connections too.  `Wired` says that those are
  control connections, so that no frame of the service gets into a pipe.
-/
import UConnect.Server.Accounts
import UConnect.Server.Recipients
import UConnect.Wire.Framing

set_option autoImplicit false

namespace UConnect.Server.Rendezvous

open UConnect UConnect.Foundation UConnect.Crypto UConnect.Wire

variable {P : Primitives} {s s' s'' : Rendezvous} {p : Place} {key : ConnKey} {c d : Conn}

/-! ## What is where

The bytes of one direction, from the one socket to the other. -/

/-- What a leg has sent behind the frame it joined with. -/
def Conn.payload (c : Conn) : Bytes := c.received.drop c.joined.length

/-- The first thing that was received is a frame with a `RelayJoin`. -/
structure Joined (joined received : Bytes) : Prop where
  first : joined <+: received
  join : ∃ msg, joined = lengthPrefixed msg ∧ peekType msg = some .relayJoin

/-- The limit on what is held for a leg. -/
def outLimit (cfg : RendezvousConfig) : Nat := cfg.spliceBuffer + joinOk.length

/-- What holds of a connection by itself. -/
def Conn.Ready (cfg : RendezvousConfig) (c : Conn) : Prop :=
  match c.mode with
  | .new => c.out = [] ∧ c.written = [] ∧
      (c.dead = false → FrameReader.Reading kMaxFrame [] c.received c.reader)
  | .control => True
  | .relayWaiting => c.out = [] ∧ c.written = [] ∧ Joined c.joined c.received ∧
      (c.dead = false → c.received = c.joined ++ c.relayEarly ∧
        c.relayEarly.length ≤ cfg.spliceBuffer)
  | .splice => Joined c.joined c.received ∧ c.out.length ≤ outLimit cfg

/-- What the leg `c` sent on its way to its partner `p`. -/
structure Flow (cfg : RendezvousConfig) (p c : Conn) : Prop where
  leg : c.mode = .splice
  back : c.partner = p.key
  carried : p.written ++ p.out ++ c.relayEarly <+: joinOk ++ c.payload
  room : p.out.length + c.relayEarly.length ≤ outLimit cfg

/-- The loop still has to pass on what this connection sent early. -/
def Doing.holds (key : ConnKey) : Doing → Prop
  | .nothing => False
  | .opened _ _ => False
  | .passing src dst _ again => key = src ∨ again = true ∧ key = dst

/-- The connection is a live leg. -/
structure Conn.Live (c : Conn) : Prop where
  leg : c.mode = .splice
  alive : c.dead = false

/-- The pipes of all pairs. -/
structure Pipes (s : Rendezvous) : Prop where
  mates : ∀ p ∈ s.all, p.mode = .splice → p.partner ∈ s.keys
  old : ∀ p ∈ s.all, p.mode = .splice → p.partner < s.nextKey
  flow : ∀ p ∈ s.all, p.mode = .splice → ∀ c ∈ s.all, c.key = p.partner → Flow s.cfg p c
  whole : ∀ x ∈ s.held, x.conn.Live → ∀ c ∈ s.all, c.key = x.conn.partner →
    x.conn.written ++ x.conn.out ++ c.relayEarly = joinOk ++ c.payload ∧
      (c.relayEarly = [] ∨ s.doing.holds c.key)

theorem mem_all_of_held {x : Held} (hx : x ∈ s.held) : x.conn ∈ s.all :=
  List.mem_append_left _ (List.mem_map_of_mem hx)

theorem mem_all : c ∈ s.all ↔ (∃ x ∈ s.held, x.conn = c) ∨ c ∈ s.closed := by
  rw [all, List.mem_append, List.mem_map]

/-! ## Quiet changes

Changes that move no byte of a pipe, of one connection and of all. -/

/-- A connection changed without anything passing from one leg to another. -/
structure Still (c d : Conn) : Prop where
  key : d.key = c.key
  splice_iff : d.mode = .splice ↔ c.mode = .splice
  leg : c.mode = .splice → d.partner = c.partner ∧ d.payload = c.payload ∧
    d.relayEarly = c.relayEarly ∧ d.written ++ d.out = c.written ++ c.out ∧
    d.out.length ≤ c.out.length ∧ (c.dead = true → d.dead = true)

/-- And a connection that was ready is. -/
structure Quiet (cfg : RendezvousConfig) (c d : Conn) : Prop where
  still : Still c d
  ready : c.Ready cfg → d.Ready cfg

theorem Still.refl (c : Conn) : Still c c :=
  ⟨rfl, Iff.rfl, fun _ => ⟨rfl, rfl, rfl, rfl, Nat.le_refl _, id⟩⟩

/-- Stillness composes, so the phases of one action are looked at apart. -/
theorem Still.trans {e : Conn} (h : Still c d) (h' : Still d e) : Still c e where
  key := h'.key.trans h.key
  splice_iff := h'.splice_iff.trans h.splice_iff
  leg := by
    intro hleg
    obtain ⟨hp, hpay, hearly, hout, hlen, hdead⟩ := h.leg hleg
    obtain ⟨hp', hpay', hearly', hout', hlen', hdead'⟩ := h'.leg (h.splice_iff.mpr hleg)
    exact ⟨hp'.trans hp, hpay'.trans hpay, hearly'.trans hearly, hout'.trans hout,
      Nat.le_trans hlen' hlen, fun hd => hdead' (hdead hd)⟩

/-- A connection that is no leg of a pair, before or after, is in no pipe. -/
theorem Still.apart (hkey : d.key = c.key) (hc : c.mode ≠ .splice) (hd : d.mode ≠ .splice) :
    Still c d :=
  ⟨hkey, ⟨fun h => absurd h hd, fun h => absurd h hc⟩, fun h => absurd h hc⟩

theorem Quiet.refl (cfg : RendezvousConfig) (c : Conn) : Quiet cfg c c := ⟨Still.refl c, id⟩

/-- And so does quiet. -/
theorem Quiet.trans {cfg : RendezvousConfig} {e : Conn} (h : Quiet cfg c d) (h' : Quiet cfg d e) :
    Quiet cfg c e := ⟨h.still.trans h'.still, fun hr => h'.ready (h.ready hr)⟩

/-- Every connection changed as `R` allows, and the loop has at least as much to
pass on. -/
structure Edits (R : Conn → Conn → Prop) (s s' : Rendezvous) : Prop where
  held : ∃ g, s'.held = s.held.map g ∧ ∀ x ∈ s.held, R x.conn (g x).conn
  cfg : s'.cfg = s.cfg
  closed : s'.closed = s.closed
  nextKey : s'.nextKey = s.nextKey
  doing : ∀ key, s.doing.holds key → s'.doing.holds key

namespace Edits

variable {R : Conn → Conn → Prop}

/-- An action that leaves the list of connections alone edits none of them. -/
theorem of_held (hrefl : ∀ c, R c c) (hheld : s'.held = s.held) (hcfg : s'.cfg = s.cfg)
    (hclosed : s'.closed = s.closed) (hnext : s'.nextKey = s.nextKey)
    (hdoing : ∀ key, s.doing.holds key → s'.doing.holds key) : Edits R s s' :=
  ⟨⟨id, by rw [hheld, List.map_id], fun x _ => hrefl x.conn⟩, hcfg, hclosed, hnext, hdoing⟩

theorem refl (hrefl : ∀ c, R c c) (s : Rendezvous) : Edits R s s :=
  of_held hrefl rfl rfl rfl rfl fun _ h => h

theorem trans (htrans : ∀ {c d e}, R c d → R d e → R c e) (h : Edits R s s') (h' : Edits R s' s'') :
    Edits R s s'' where
  held := by
    obtain ⟨g, hg, hR⟩ := h.held
    obtain ⟨g', hg', hR'⟩ := h'.held
    refine ⟨g' ∘ g, by rw [hg', hg, List.map_map], fun x hx => ?_⟩
    exact htrans (hR x hx) (hR' (g x) (hg ▸ List.mem_map_of_mem hx))
  cfg := h'.cfg.trans h.cfg
  closed := h'.closed.trans h.closed
  nextKey := h'.nextKey.trans h.nextKey
  doing := fun key hk => h'.doing key (h.doing key hk)

theorem mono {R' : Conn → Conn → Prop} (hR : ∀ {c d}, R c d → R' c d) (h : Edits R s s') :
    Edits R' s s' := by
  obtain ⟨g, hg, hedit⟩ := h.held
  exact ⟨⟨g, hg, fun x hx => hR (hedit x hx)⟩, h.cfg, h.closed, h.nextKey, h.doing⟩

/-- A change of one connection edits the state as it edits that connection. -/
theorem modify (hrefl : ∀ c, R c c) {f : Conn → Conn}
    (hf : ∀ x ∈ s.held, x.place = p → x.conn.key = key → R x.conn (f x.conn)) :
    Edits R s (s.modify p key f) := by
  refine ⟨⟨_, rfl, fun x hx => ?_⟩, rfl, rfl, rfl, fun _ h => h⟩
  split
  · rename_i hat
    exact hf x hx hat.1 hat.2
  · exact hrefl x.conn

theorem mem_held (h : Edits R s s') {y : Held} (hy : y ∈ s'.held) :
    ∃ x ∈ s.held, R x.conn y.conn := by
  obtain ⟨g, hg, hR⟩ := h.held
  obtain ⟨x, hx, rfl⟩ := mem_map_held hg hy
  exact ⟨x, hx, hR x hx⟩

/-- Every connection behind an edit comes from one before it, held or closed. -/
theorem mem (hrefl : ∀ c, R c c) (h : Edits R s s') (hd : d ∈ s'.all) : ∃ c ∈ s.all, R c d := by
  rcases mem_all.mp hd with ⟨y, hy, rfl⟩ | hclosed
  · obtain ⟨x, hx, hR⟩ := h.mem_held hy
    exact ⟨x.conn, mem_all_of_held hx, hR⟩
  · rw [h.closed] at hclosed
    exact ⟨d, mem_all.mpr (.inr hclosed), hrefl d⟩

end Edits

theorem Edits.keys (h : Edits Still s s') : s'.keys = s.keys := by
  refine keys_eq ?_ h.closed
  obtain ⟨g, hg, hstill⟩ := h.held
  rw [hg, List.map_map]
  exact List.map_congr_left fun x hx => (hstill x hx).key

theorem Edits.then {cfg : RendezvousConfig} (h : Edits (Quiet cfg) s s')
    (h' : Edits (Quiet cfg) s' s'') : Edits (Quiet cfg) s s'' :=
  Edits.trans (R := Quiet cfg) (fun hcd hde => hcd.trans hde) h h'

/-- Quiet changes keep the pipes. -/
theorem Pipes.still (hp : s.Pipes) (h : Edits Still s s') : s'.Pipes where
  mates := by
    intro d hd hleg
    obtain ⟨c, hc, hstill⟩ := h.mem Still.refl hd
    have hsplice := hstill.splice_iff.mp hleg
    rw [(hstill.leg hsplice).1, h.keys]
    exact hp.mates c hc hsplice
  old := by
    intro d hd hleg
    obtain ⟨c, hc, hstill⟩ := h.mem Still.refl hd
    have hsplice := hstill.splice_iff.mp hleg
    rw [(hstill.leg hsplice).1, h.nextKey]
    exact hp.old c hc hsplice
  flow := by
    intro p' hp' hleg c' hc' hkey
    obtain ⟨p, hpmem, hstill⟩ := h.mem Still.refl hp'
    obtain ⟨c, hc, hstill'⟩ := h.mem Still.refl hc'
    have hsplice := hstill.splice_iff.mp hleg
    obtain ⟨hpartner, -, -, hout, hlen, -⟩ := hstill.leg hsplice
    rw [hpartner, hstill'.key] at hkey
    have hflow := hp.flow p hpmem hsplice c hc hkey
    obtain ⟨hpartner', hpay, hearly, -, -, -⟩ := hstill'.leg hflow.leg
    refine ⟨hstill'.splice_iff.mpr hflow.leg, ?_, ?_, ?_⟩
    · rw [hpartner', hstill.key]
      exact hflow.back
    · rw [hout, hearly, hpay]
      exact hflow.carried
    · rw [hearly, h.cfg]
      exact Nat.le_trans (Nat.add_le_add_right hlen _) hflow.room
  whole := by
    intro y hy hlive c' hc' hkey
    obtain ⟨x, hx, hstill⟩ := h.mem_held hy
    obtain ⟨c, hc, hstill'⟩ := h.mem Still.refl hc'
    have hsplice := hstill.splice_iff.mp hlive.leg
    obtain ⟨hpartner, -, -, hout, -, hdead⟩ := hstill.leg hsplice
    have halive : x.conn.dead = false := by
      cases hx' : x.conn.dead with
      | false => rfl
      | true => rw [← hlive.alive, hdead hx']
    rw [hpartner, hstill'.key] at hkey
    obtain ⟨hall, hearly⟩ := hp.whole x hx ⟨hsplice, halive⟩ c hc hkey
    have hleg := (hp.flow x.conn (mem_all_of_held hx) hsplice c hc hkey).leg
    obtain ⟨-, hpay, hearly', -, -, -⟩ := hstill'.leg hleg
    rw [hout, hpay, hearly', hstill'.key]
    exact ⟨hall, hearly.imp_right (h.doing c.key)⟩

theorem Still.kill (c : Conn) : Still c c.kill :=
  ⟨rfl, Iff.rfl, fun _ => ⟨rfl, rfl, rfl, rfl, Nat.le_refl _, fun _ => rfl⟩⟩

/-- Killing a connection moves no byte. -/
theorem Quiet.kill (cfg : RendezvousConfig) (c : Conn) : Quiet cfg c c.kill where
  still := Still.kill c
  ready := by
    intro hr
    unfold Conn.Ready at hr ⊢
    rw [show c.kill.mode = c.mode from rfl]
    cases hmode : c.mode with
    | new =>
        rw [hmode] at hr
        exact ⟨hr.1, hr.2.1, fun h => Bool.noConfusion h⟩
    | control => trivial
    | relayWaiting =>
        rw [hmode] at hr
        exact ⟨hr.1, hr.2.1, hr.2.2.1, fun h => Bool.noConfusion h⟩
    | splice =>
        rw [hmode] at hr
        exact hr

theorem quiets_killAt (s : Rendezvous) (p : Place) (key : ConnKey) :
    Edits (Quiet s.cfg) s (s.killAt p key) :=
  Edits.modify (Quiet.refl s.cfg) fun x _ _ _ => Quiet.kill s.cfg x.conn

/-- A control connection is in no pipe, whatever becomes of its data. -/
theorem Quiet.control {cfg : RendezvousConfig} (hc : c.mode ≠ .splice) (hkey : d.key = c.key)
    (hd : d.mode = .control) : Quiet cfg c d where
  still := by
    refine Still.apart hkey hc ?_
    rw [hd]
    exact Mode.noConfusion
  ready := by
    intro _
    unfold Conn.Ready
    rw [hd]
    trivial

/-! ## What the service knows

Frames of the service go to connections it was told of, and those are control
connections. -/

/-- The key is taken, and no connection but a control connection has it. -/
def Control (s : Rendezvous) (key : ConnKey) : Prop :=
  key < s.nextKey ∧ ∀ x ∈ s.held, x.conn.key = key → x.conn.mode = .control

/-- The invariant of the pipes and of all they need. -/
structure Wired (s : Rendezvous) : Prop where
  inv : s.Inv
  ready : ∀ c ∈ s.all, c.Ready s.cfg
  pipes : s.Pipes
  knows : s.service.Knows s.Control
  opened : ∀ key msg, s.doing = .opened key msg → s.Control key
  stays : ∀ src dst id again, s.doing = .passing src dst id again →
    (∃ x ∈ s.held, x.place = .loop ∧ x.conn.key = src) ∧
      ∃ x ∈ s.held, x.place = .loop ∧ x.conn.key = dst

/-- Control connections stay what they are. -/
structure Tame (s s' : Rendezvous) : Prop where
  nextKey : s.nextKey ≤ s'.nextKey
  held : ∀ y ∈ s'.held, y.conn.key < s.nextKey → ∃ x ∈ s.held, x.conn.key = y.conn.key ∧
    (x.conn.mode = .control → y.conn.mode = .control)

theorem Tame.control (h : Tame s s') (hk : s.Control key) : s'.Control key := by
  refine ⟨Nat.lt_of_lt_of_le hk.1 h.nextKey, fun y hy hkey => ?_⟩
  obtain ⟨x, hx, hxkey, hmode⟩ := h.held y hy (hkey ▸ hk.1)
  exact hmode (hk.2 x hx (hxkey.trans hkey))

theorem Tame.calms (h : Calms s s') : Tame s s' := by
  refine ⟨Nat.le_of_eq h.nextKey.symm, fun y hy _ => ?_⟩
  obtain ⟨x, hx, hcalm⟩ := h.mem hy
  refine ⟨x, hx, hcalm.key.symm, fun hmode => ?_⟩
  rcases hcalm.mode with heq | ⟨-, hcontrol⟩
  · exact heq.trans hmode
  · exact hcontrol

theorem Tame.trans (h : Tame s s') (h' : Tame s' s'') : Tame s s'' := by
  refine ⟨Nat.le_trans h.nextKey h'.nextKey, fun z hz hold => ?_⟩
  obtain ⟨y, hy, hkey, hmode⟩ := h'.held z hz (Nat.lt_of_lt_of_le hold h.nextKey)
  obtain ⟨x, hx, hkey', hmode'⟩ := h.held y hy (hkey ▸ hold)
  exact ⟨x, hx, hkey'.trans hkey, fun hc => hmode (hmode' hc)⟩

/-- Calm changes that keep the pipes, beside a service that knows no more. -/
theorem Wired.calms (hw : s.Wired) (hcalm : Calms s s') (hready : ∀ c ∈ s'.all, c.Ready s'.cfg)
    (hpipes : s'.Pipes) (hknows : s'.service.Knows s.Control) : s'.Wired where
  inv := hw.inv.calms hcalm
  ready := hready
  pipes := hpipes
  knows := hknows.mono fun _ => (Tame.calms hcalm).control
  opened := by
    intro key msg hd
    rw [hcalm.doing] at hd
    exact (Tame.calms hcalm).control (hw.opened key msg hd)
  stays := by
    intro src dst id again hd
    rw [hcalm.doing] at hd
    obtain ⟨⟨x, hx, hplace, hkey⟩, y, hy, hplace', hkey'⟩ := hw.stays src dst id again hd
    obtain ⟨x', hx', hcx⟩ := hcalm.mem_of_mem hx
    obtain ⟨y', hy', hcy⟩ := hcalm.mem_of_mem hy
    exact ⟨⟨x', hx', hcx.place.trans hplace, hcx.key.trans hkey⟩,
      y', hy', hcy.place.trans hplace', hcy.key.trans hkey'⟩

/-- Quiet changes keep every connection ready for the mode it may come to. -/
theorem ready_edits (hready : ∀ c ∈ s.all, c.Ready s.cfg) (h : Edits (Quiet s.cfg) s s') :
    ∀ c ∈ s'.all, c.Ready s'.cfg := by
  intro d hd
  obtain ⟨c, hc, hq⟩ := h.mem (Quiet.refl s.cfg) hd
  rw [h.cfg]
  exact hq.ready (hready c hc)

/-- A change that is calm and quiet keeps the wiring, provided the service still
knows only control connections. -/
theorem Wired.quiet (hw : s.Wired) (hcalm : Calms s s') (hquiet : Edits (Quiet s.cfg) s s')
    (hknows : s'.service.Knows s.Control) : s'.Wired :=
  hw.calms hcalm (ready_edits hw.ready hquiet) (hw.pipes.still (hquiet.mono Quiet.still)) hknows

/-! ## Frames of the service

Delivering a frame is quiet for every leg. -/

/-- A frame to a control connection puts nothing into a pipe. -/
theorem quiets_deliver (f : Framed) (hf : s.Control f.dst) :
    Edits (Quiet s.cfg) s (s.deliver f) := by
  unfold deliver
  cases hfind : s.find .loop f.dst with
  | none => exact Edits.refl (Quiet.refl s.cfg) s
  | some c =>
      dsimp only
      split
      · exact Edits.refl (Quiet.refl s.cfg) s
      split
      · exact quiets_killAt s _ _
      · refine Edits.modify (Quiet.refl s.cfg) fun x hx _ hkey => ?_
        have hmode := hf.2 x hx hkey
        refine Quiet.control ?_ rfl hmode
        rw [hmode]
        exact Mode.noConfusion

theorem quiets_foldl_deliver (fs : List Framed) (hfs : ∀ f ∈ fs, s.Control f.dst) :
    Edits (Quiet s.cfg) s (fs.foldl deliver s) := by
  induction fs generalizing s with
  | nil => exact Edits.refl (Quiet.refl s.cfg) s
  | cons f fs ih =>
      have hfirst := quiets_deliver f (hfs f List.mem_cons_self)
      have htame := Tame.calms (calms_deliver s f)
      have hrest := ih fun g hg => htame.control (hfs g (List.mem_cons_of_mem _ hg))
      rw [hfirst.cfg] at hrest
      exact hfirst.then hrest

theorem service_foldl_deliver (fs : List Framed) (s : Rendezvous) :
    (fs.foldl deliver s).service = s.service := by
  induction fs generalizing s with
  | nil => rfl
  | cons f fs ih =>
      rw [List.foldl_cons, ih]
      unfold deliver
      cases s.find .loop f.dst with
      | none => rfl
      | some c =>
          dsimp only
          split
          · rfl
          split <;> rfl

/-- The service's replies reach control connections, since it knows no others. -/
theorem Wired.onControl (hw : s.Wired) (key : ConnKey) (msg : Bytes) (now : Instant) (v : Verdict) :
    (s.onControl P key msg now v).Wired := by
  refine hw.quiet (calms_onControl s key msg now v) ?_ ?_
  · unfold Rendezvous.onControl
    cases hm : s.service.onMessage P key msg now v.admitted v.draws with
    | none => exact Edits.refl (Quiet.refl s.cfg) s
    | some r =>
        have hservice : Edits (Quiet s.cfg) s { s with service := r.2 } :=
          Edits.of_held (Quiet.refl s.cfg) rfl rfl rfl rfl fun _ h => h
        have hout : Edits (Quiet s.cfg) { s with service := r.2 }
            (r.1.out.foldl deliver { s with service := r.2 }) :=
          quiets_foldl_deliver (s := { s with service := r.2 }) r.1.out fun f hf =>
            hw.knows.recipient hm hf
        have hboth := hservice.then hout
        dsimp only
        split
        · have hkill := quiets_killAt (r.1.out.foldl deliver { s with service := r.2 }) .loop key
          rw [hboth.cfg] at hkill
          exact hboth.then hkill
        · exact hboth
  · unfold Rendezvous.onControl
    cases hm : s.service.onMessage P key msg now v.admitted v.draws with
    | none => exact hw.knows
    | some r =>
        have hstep : s.service.step P (.message key msg now v.admitted v.draws) = r.2 := by
          rw [ControlService.step, hm]
          rfl
        have hknows := hw.knows.step (P := P) (e := .message key msg now v.admitted v.draws)
          fun _ _ h => ControlService.Event.noConfusion h
        rw [hstep] at hknows
        dsimp only
        split
        · exact (service_foldl_deliver r.1.out { s with service := r.2 }) ▸ hknows
        · exact (service_foldl_deliver r.1.out { s with service := r.2 }) ▸ hknows

/-! ## Reading

What a read puts in front of a pipe. -/

/-- Two changes of one connection are one change. -/
theorem modify_modify {k : ConnKey} {f g : Conn → Conn} (hf : ∀ d, (f d).key = d.key) :
    (s.modify p k f).modify p k g = s.modify p k (g ∘ f) := by
  unfold modify
  congr 1
  rw [List.map_map]
  refine List.map_congr_left fun x _ => ?_
  by_cases hat : x.place = p ∧ x.conn.key = k
  · rw [Function.comp_apply, if_pos hat, if_pos hat, if_pos ⟨hat.1, (hf _).trans hat.2⟩]
    rfl
  · rw [Function.comp_apply, if_neg hat, if_neg hat, if_neg hat]

/-- The one connection of a key is edited. -/
theorem Edits.modify_at {R : Conn → Conn → Prop} (hrefl : ∀ c, R c c) (hd : s.Distinct)
    (hc : ⟨p, c⟩ ∈ s.held) {f : Conn → Conn} (hf : R c (f c)) :
    Edits R s (s.modify p c.key f) := by
  refine Edits.modify hrefl fun x hx _ hkey => ?_
  obtain rfl := hd.eq hx hc hkey
  exact hf

/-- Bytes read into the reader of a connection that is not a leg are in no pipe
yet. -/
theorem Quiet.fed {cfg : RendezvousConfig} (hmode : c.mode = .new ∨ c.mode = .control)
    (bytes : Bytes) (now : Instant) (hlive : c.dead = false) (hfed : (c.reader.feed bytes).1 = true) :
    Quiet cfg c { c with received := c.received ++ bytes, lastRx := now
                         reader := (c.reader.feed bytes).2 } := by
  have hnot : c.mode ≠ .splice := by
    rcases hmode with h | h <;> rw [h] <;> exact Mode.noConfusion
  refine ⟨Still.apart rfl hnot hnot, fun hr => ?_⟩
  unfold Conn.Ready at hr ⊢
  rcases hmode with hnew | hcontrol
  · simp only [hnew] at hr ⊢
    refine ⟨hr.1, hr.2.1, fun _ => ?_⟩
    have hread := (hr.2.2 hlive).step (.feed bytes)
    have hgood : c.reader.broken = false := by
      cases hb : c.reader.broken with
      | false => rfl
      | true => simp [FrameReader.feed, hb] at hfed
    have htakes : c.reader.takes (.feed bytes) = bytes := by
      rw [FrameReader.takes, hgood]
      rfl
    rw [htakes, FrameReader.returns, List.append_nil] at hread
    exact hread
  · simp only [hcontrol]

/-- A dead connection that is no leg has nothing to show. -/
theorem Quiet.fed_dead {cfg : RendezvousConfig} (hmode : c.mode = .new ∨ c.mode = .control)
    (hkey : d.key = c.key) (hsame : d.mode = c.mode) (hout : d.out = c.out)
    (hwritten : d.written = c.written) (hdead : d.dead = true) : Quiet cfg c d := by
  have hnot : c.mode ≠ .splice := by
    rcases hmode with h | h <;> rw [h] <;> exact Mode.noConfusion
  refine ⟨Still.apart hkey hnot (hsame ▸ hnot), fun hr => ?_⟩
  unfold Conn.Ready at hr ⊢
  rw [hsame]
  rcases hmode with hnew | hcontrol
  · simp only [hnew] at hr ⊢
    rw [hout, hwritten]
    refine ⟨hr.1, hr.2.1, fun hlive => ?_⟩
    rw [hdead] at hlive
    cases hlive
  · simp only [hcontrol]

/-- A read before the mode is decided, or on a control connection. -/
theorem Wired.readChunk (hw : s.Wired) (hc : ⟨.loop, c⟩ ∈ s.held) (hlive : c.dead = false)
    (hmode : c.mode = .new ∨ c.mode = .control) (got : Recv) (now : Instant) :
    (s.readChunk c got now).Wired := by
  have hquiet : Edits (Quiet s.cfg) s (s.readChunk c got now) ∧
      (s.readChunk c got now).service = s.service := by
    unfold Rendezvous.readChunk
    cases got with
    | none => exact ⟨quiets_killAt s _ _, rfl⟩
    | some bytes =>
        dsimp only
        split
        · exact ⟨Edits.refl (Quiet.refl s.cfg) s, rfl⟩
        split
        · rename_i hfed
          exact ⟨Edits.modify_at (Quiet.refl s.cfg) hw.inv.distinct hc
            (Quiet.fed hmode _ now hlive hfed), rfl⟩
        · rw [killAt, modify_modify]
          · exact ⟨Edits.modify_at (Quiet.refl s.cfg) hw.inv.distinct hc
              (Quiet.fed_dead hmode rfl rfl rfl rfl rfl), rfl⟩
          · exact fun _ => rfl
  exact hw.quiet (calms_readChunk s c got now) hquiet.1 (hquiet.2 ▸ hw.knows)

theorem Joined.append {joined received : Bytes} (h : Joined joined received) (bytes : Bytes) :
    Joined joined (received ++ bytes) :=
  ⟨h.first.trans (List.prefix_append _ _), h.join⟩

/-- A waiting leg that has sent more than may be kept. -/
theorem Quiet.early_dead {cfg : RendezvousConfig} (hmode : c.mode = .relayWaiting) (bytes : Bytes) :
    Quiet cfg c { c with received := c.received ++ bytes, dead := true } := by
  have hnot : c.mode ≠ .splice := by
    rw [hmode]
    exact Mode.noConfusion
  refine ⟨Still.apart rfl hnot hnot, fun hr => ?_⟩
  unfold Conn.Ready at hr ⊢
  simp only [hmode] at hr ⊢
  exact ⟨hr.1, hr.2.1, hr.2.2.1.append bytes, fun h => Bool.noConfusion h⟩

/-- Bytes of a leg that waits are kept apart and in order. -/
theorem Quiet.early {cfg : RendezvousConfig} (hmode : c.mode = .relayWaiting) {bytes : Bytes}
    (hlive : c.dead = false) (hroom : bytes.length ≤ cfg.spliceBuffer - c.relayEarly.length) :
    Quiet cfg c { c with received := c.received ++ bytes, relayEarly := c.relayEarly ++ bytes } := by
  have hnot : c.mode ≠ .splice := by
    rw [hmode]
    exact Mode.noConfusion
  refine ⟨Still.apart rfl hnot hnot, fun hr => ?_⟩
  unfold Conn.Ready at hr ⊢
  simp only [hmode] at hr ⊢
  obtain ⟨hout, hwritten, hjoined, hearly⟩ := hr
  obtain ⟨hreceived, hlen⟩ := hearly hlive
  refine ⟨hout, hwritten, hjoined.append bytes, fun _ => ⟨?_, ?_⟩⟩
  · rw [hreceived, List.append_assoc]
  · rw [List.length_append]
    omega

/-- A read on a leg that waits. -/
theorem Wired.readEarly (hw : s.Wired) (hc : ⟨.loop, c⟩ ∈ s.held) (hlive : c.dead = false)
    (hmode : c.mode = .relayWaiting) (got : Recv) : (s.readEarly c got).Wired := by
  have hquiet : Edits (Quiet s.cfg) s (s.readEarly c got) ∧
      (s.readEarly c got).service = s.service := by
    unfold Rendezvous.readEarly
    cases got with
    | none => exact ⟨quiets_killAt s _ _, rfl⟩
    | some bytes =>
        dsimp only
        split
        · rw [killAt, modify_modify]
          · exact ⟨Edits.modify_at (Quiet.refl s.cfg) hw.inv.distinct hc
              (Quiet.early_dead hmode _), rfl⟩
          · exact fun _ => rfl
        · rename_i hroom
          rw [modify_modify]
          · exact ⟨Edits.modify_at (Quiet.refl s.cfg) hw.inv.distinct hc
              (Quiet.early hmode hlive (Nat.le_of_not_gt hroom)), rfl⟩
          · exact fun _ => rfl
  exact hw.quiet (calms_readEarly s c got) hquiet.1 (hquiet.2 ▸ hw.knows)

/-! ## Passing bytes on

From a leg's read to its partner's buffer. -/

/-- What a leg reads goes on the end of its payload. -/
theorem payload_append (hj : Joined c.joined c.received) (bytes : Bytes) :
    (c.received ++ bytes).drop c.joined.length = c.payload ++ bytes :=
  List.drop_append_of_le_length hj.first.length_le

/-- A leg that nobody listens to may go on sending. -/
theorem Pipes.grow (hp : s.Pipes) (hi : s.Inv) (hc : ⟨p, c⟩ ∈ s.held)
    (hj : Joined c.joined c.received) (bytes : Bytes)
    (hdeaf : ∀ x ∈ s.held, x.conn.Live → x.conn.partner ≠ c.key) :
    (s.modify p c.key fun d => { d with received := d.received ++ bytes }).Pipes := by
  have hcases : ∀ e ∈ (s.modify p c.key fun d => { d with received := d.received ++ bytes }).all,
      e = { c with received := c.received ++ bytes } ∨ e ∈ s.all ∧ e.key ≠ c.key := by
    intro e he
    rcases mem_all.mp he with ⟨x, hx, rfl⟩ | hclosed
    · rcases mem_modify_cases (f := fun d => { d with received := d.received ++ bytes })
        hi.distinct hc hx with rfl | ⟨hx, hne⟩
      · exact .inl rfl
      · exact .inr ⟨mem_all_of_held hx, hne⟩
    · exact .inr ⟨mem_all.mpr (.inr hclosed), ((hi.gone e hclosed).2 _ hc).symm⟩
  have hmem : c ∈ s.all := mem_all_of_held hc
  -- as a receiver the leg is what it was
  have hreceiver : ∀ e ∈ (s.modify p c.key fun d => { d with received := d.received ++ bytes }).all,
      ∃ e₀ ∈ s.all, e.key = e₀.key ∧ e.mode = e₀.mode ∧ e.partner = e₀.partner ∧
        e.written = e₀.written ∧ e.out = e₀.out := by
    intro e he
    rcases hcases e he with rfl | ⟨he, -⟩
    · exact ⟨c, hmem, rfl, rfl, rfl, rfl, rfl⟩
    · exact ⟨e, he, rfl, rfl, rfl, rfl, rfl⟩
  refine ⟨?_, ?_, ?_, ?_⟩
  · intro e he hleg
    obtain ⟨e₀, he₀, -, hmode, hpartner, -⟩ := hreceiver e he
    rw [hpartner, keys_eq (keys_modify (f := fun d => { d with received := d.received ++ bytes })
      fun _ => rfl) rfl]
    exact hp.mates e₀ he₀ (hmode ▸ hleg)
  · intro e he hleg
    obtain ⟨e₀, he₀, -, hmode, hpartner, -⟩ := hreceiver e he
    rw [hpartner]
    exact hp.old e₀ he₀ (hmode ▸ hleg)
  · intro e he hleg f hf hkey
    obtain ⟨e₀, he₀, hekey, hmode, hpartner, hwritten, hout⟩ := hreceiver e he
    rw [hpartner] at hkey
    rcases hcases f hf with rfl | ⟨hf, -⟩
    · have hflow := hp.flow e₀ he₀ (hmode ▸ hleg) c hmem hkey
      refine ⟨hflow.leg, hflow.back.trans hekey.symm, ?_, by rw [hout]; exact hflow.room⟩
      rw [hwritten, hout, Conn.payload, payload_append hj, ← List.append_assoc]
      exact hflow.carried.trans (List.prefix_append _ _)
    · have hflow := hp.flow e₀ he₀ (hmode ▸ hleg) f hf hkey
      refine ⟨hflow.leg, hflow.back.trans hekey.symm, ?_, by rw [hout]; exact hflow.room⟩
      rw [hwritten, hout]
      exact hflow.carried
  · intro x hx hlive f hf hkey
    have hold : ∃ x₀ ∈ s.held, x₀.conn.Live ∧ x.conn.partner = x₀.conn.partner ∧
        x.conn.written = x₀.conn.written ∧ x.conn.out = x₀.conn.out := by
      rcases mem_modify_cases (f := fun d => { d with received := d.received ++ bytes })
        hi.distinct hc hx with rfl | ⟨hx, -⟩
      · exact ⟨_, hc, ⟨hlive.leg, hlive.alive⟩, rfl, rfl, rfl⟩
      · exact ⟨x, hx, hlive, rfl, rfl, rfl⟩
    obtain ⟨x₀, hx₀, hlive₀, hpartner, hwritten, hout⟩ := hold
    rw [hpartner] at hkey
    rcases hcases f hf with rfl | ⟨hf, -⟩
    · exact absurd hkey.symm (hdeaf x₀ hx₀ hlive₀)
    · rw [hwritten, hout]
      exact hp.whole x₀ hx₀ hlive₀ f hf hkey

/-- Of all connections only `c` and `d` have changed, both of them held. -/
theorem mem_all_two (hi : s.Inv) {q : Place} (hc : ⟨q, c⟩ ∈ s.held) (hd : ⟨q, d⟩ ∈ s.held)
    {c' d' : Conn}
    (hmem : ∀ x ∈ s'.held, x = ⟨q, c'⟩ ∨ x = ⟨q, d'⟩ ∨
      x ∈ s.held ∧ x.conn.key ≠ c.key ∧ x.conn.key ≠ d.key)
    (hclosed : s'.closed = s.closed) {e : Conn} (he : e ∈ s'.all) :
    e = c' ∨ e = d' ∨ e ∈ s.all ∧ e.key ≠ c.key ∧ e.key ≠ d.key := by
  rcases mem_all.mp he with ⟨x, hx, rfl⟩ | he
  · rcases hmem x hx with rfl | rfl | ⟨hx, hxc, hxd⟩
    · exact .inl rfl
    · exact .inr (.inl rfl)
    · exact .inr (.inr ⟨mem_all_of_held hx, hxc, hxd⟩)
  · rw [hclosed] at he
    have hgone := (hi.gone e he).2
    exact .inr (.inr ⟨mem_all.mpr (.inr he), (hgone _ hc).symm, (hgone _ hd).symm⟩)

/-- A leg that is neither of two partners has neither of them for its own. -/
theorem Pipes.partners_apart (hp : s.Pipes) (hc : c ∈ s.all) (hd : d ∈ s.all)
    (hpartner : c.partner = d.key) (hback : d.partner = c.key) {e : Conn} (he : e ∈ s.all)
    (hleg : e.mode = .splice) (hec : e.key ≠ c.key) (hed : e.key ≠ d.key) :
    c.key ≠ e.partner ∧ d.key ≠ e.partner := by
  refine ⟨fun hkey => hed ?_, fun hkey => hec ?_⟩
  · exact ((hp.flow e he hleg c hc hkey).back.symm.trans hpartner)
  · exact ((hp.flow e he hleg d hd hkey).back.symm.trans hback)

/-- Something passes from the leg `c` to its partner `d`, or both die: only the
pipe from the one to the other has to be looked at. -/
theorem Pipes.transfer (hp : s.Pipes) (hi : s.Inv) {q : Place} (hc : ⟨q, c⟩ ∈ s.held)
    (hd : ⟨q, d⟩ ∈ s.held) (hne : d.key ≠ c.key) (hleg : c.mode = .splice)
    (hpartner : c.partner = d.key) (hdleg : d.mode = .splice) (hback : d.partner = c.key)
    {c' d' : Conn}
    (hmem : ∀ x ∈ s'.held, x = ⟨q, c'⟩ ∨ x = ⟨q, d'⟩ ∨
      x ∈ s.held ∧ x.conn.key ≠ c.key ∧ x.conn.key ≠ d.key)
    (hkeys : s'.keys = s.keys) (hcfg : s'.cfg = s.cfg) (hclosed : s'.closed = s.closed)
    (hnext : s'.nextKey = s.nextKey)
    (hsender : c'.key = c.key ∧ c'.mode = c.mode ∧ c'.partner = c.partner ∧
      c'.written = c.written ∧ c'.out = c.out ∧ (c.dead = true → c'.dead = true))
    (hreceiver : d'.key = d.key ∧ d'.mode = d.mode ∧ d'.partner = d.partner ∧
      d'.payload = d.payload ∧ d'.relayEarly = d.relayEarly ∧ (d.dead = true → d'.dead = true))
    (hflow : Flow s.cfg d' c')
    (hwhole : d'.dead = false → d'.written ++ d'.out ++ c'.relayEarly = joinOk ++ c'.payload ∧
      (c'.relayEarly = [] ∨ s'.doing.holds c.key))
    (hdoing : ∀ k, k ≠ c.key → (c'.dead = true → k ≠ d.key) → s.doing.holds k → s'.doing.holds k) :
    s'.Pipes := by
  obtain ⟨hckey, hcmode, hcpartner, hcwritten, hcout, hcdead⟩ := hsender
  obtain ⟨hdkey, hdmode, hdpartner, hdpayload, hdearly, hddead⟩ := hreceiver
  have hcases : ∀ e ∈ s'.all, e = c' ∨ e = d' ∨ e ∈ s.all ∧ e.key ≠ c.key ∧ e.key ≠ d.key :=
    fun e he => mem_all_two hi hc hd hmem hclosed he
  have hcall : c ∈ s.all := mem_all_of_held hc
  have hdall : d ∈ s.all := mem_all_of_held hd
  have hothers : ∀ e ∈ s.all, e.mode = .splice → e.key ≠ c.key → e.key ≠ d.key →
      c.key ≠ e.partner ∧ d.key ≠ e.partner :=
    fun e => hp.partners_apart hcall hdall hpartner hback
  refine ⟨?_, ?_, ?_, ?_⟩
  · intro e he hesplice
    rw [hkeys]
    rcases hcases e he with rfl | rfl | ⟨he, -, -⟩
    · rw [hcpartner]
      exact hp.mates c hcall hleg
    · rw [hdpartner]
      exact hp.mates d hdall hdleg
    · exact hp.mates e he hesplice
  · intro e he hesplice
    rw [hnext]
    rcases hcases e he with rfl | rfl | ⟨he, -, -⟩
    · rw [hcpartner]
      exact hp.old c hcall hleg
    · rw [hdpartner]
      exact hp.old d hdall hdleg
    · exact hp.old e he hesplice
  · intro e he hesplice f hf hkey
    rw [hcfg]
    rcases hcases e he with rfl | rfl | ⟨he, hec, hed⟩
    · rw [hcpartner, hpartner] at hkey
      rcases hcases f hf with rfl | rfl | ⟨-, -, hfd⟩
      · exact absurd (hkey.symm.trans hckey) hne
      · have hother := hp.flow c hcall hleg d hdall hpartner.symm
        refine ⟨hdmode.trans hdleg, ?_, ?_, ?_⟩
        · rw [hdpartner, hckey]
          exact hback
        · rw [hcwritten, hcout, hdearly, hdpayload]
          exact hother.carried
        · rw [hcout, hdearly]
          exact hother.room
      · exact absurd hkey hfd
    · rw [hdpartner, hback] at hkey
      rcases hcases f hf with rfl | rfl | ⟨-, hfc, -⟩
      · exact hflow
      · exact absurd (hdkey.symm.trans hkey) hne
      · exact absurd hkey hfc
    · obtain ⟨hnotc, hnotd⟩ := hothers e he hesplice hec hed
      rcases hcases f hf with rfl | rfl | ⟨hf, -, -⟩
      · exact absurd (hckey.symm.trans hkey) hnotc
      · exact absurd (hdkey.symm.trans hkey) hnotd
      · exact hp.flow e he hesplice f hf hkey
  · intro x hx hlive f hf hkey
    rcases hmem x hx with rfl | rfl | ⟨hx, hxc, hxd⟩
    · rw [hcpartner, hpartner] at hkey
      have hcalive : c.dead = false := by
        cases hcd : c.dead with
        | false => rfl
        | true => exact (hcdead hcd).symm.trans hlive.alive
      rcases hcases f hf with rfl | rfl | ⟨-, -, hfd⟩
      · exact absurd (hkey.symm.trans hckey) hne
      · obtain ⟨hall, hearly⟩ := hp.whole _ hc ⟨hleg, hcalive⟩ d hdall hpartner.symm
        rw [hcwritten, hcout, hdearly, hdpayload, hdkey]
        exact ⟨hall, hearly.imp_right
          (hdoing d.key hne fun hd => absurd hlive.alive (by rw [hd]; decide))⟩
      · exact absurd hkey hfd
    · rw [hdpartner, hback] at hkey
      rcases hcases f hf with rfl | rfl | ⟨-, hfc, -⟩
      · rw [hckey]
        exact hwhole hlive.alive
      · exact absurd (hdkey.symm.trans hkey) hne
      · exact absurd hkey hfc
    · obtain ⟨hnotc, hnotd⟩ := hothers x.conn (mem_all_of_held hx) hlive.leg hxc hxd
      rcases hcases f hf with rfl | rfl | ⟨hf, hfc, hfd⟩
      · exact absurd (hckey.symm.trans hkey) hnotc
      · exact absurd (hdkey.symm.trans hkey) hnotd
      · obtain ⟨hall, hearly⟩ := hp.whole x hx hlive f hf hkey
        exact ⟨hall, hearly.imp_right (hdoing f.key hfc fun _ => hfd)⟩

/-- A leg has joined, and what is queued for it is within the limit. -/
theorem Conn.Ready.leg {cfg : RendezvousConfig} (h : c.Ready cfg) (hleg : c.mode = .splice) :
    Joined c.joined c.received ∧ c.out.length ≤ outLimit cfg := by
  unfold Conn.Ready at h
  rw [hleg] at h
  exact h

theorem Conn.Ready.of_leg {cfg : RendezvousConfig} (hleg : c.mode = .splice)
    (hj : Joined c.joined c.received) (hout : c.out.length ≤ outLimit cfg) : c.Ready cfg := by
  unfold Conn.Ready
  rw [hleg]
  exact ⟨hj, hout⟩

/-- A leg without a live partner beside it has nobody who listens. -/
theorem Inv.deaf (hi : s.Inv) (hc : ⟨p, c⟩ ∈ s.held)
    (hgone : ∀ d, s.find p c.partner = some d → d.dead = true) :
    ∀ x ∈ s.held, x.conn.Live → x.conn.partner ≠ c.key := by
  intro x hx hlive hkey
  have hopp := (hi.paired x hx hlive.leg).2 _ hc hkey.symm
  have hfind := hi.distinct.find hx
  rw [← hopp.place, ← hopp.partner] at hfind
  have hdead := hgone x.conn hfind
  rw [hlive.alive] at hdead
  cases hdead

/-- Bytes of a leg whose partner has ended go nowhere. -/
theorem Wired.drain (hw : s.Wired) (hc : ⟨p, c⟩ ∈ s.held) (hleg : c.mode = .splice)
    (hgone : ∀ d, s.find p c.partner = some d → d.dead = true) (got : Recv) :
    (s.drain p c got).Wired := by
  obtain ⟨hj, hout⟩ := (hw.ready c (mem_all_of_held hc)).leg hleg
  have hkill : ∀ {t : Rendezvous}, t.Wired →
      (if c.out.isEmpty then t.killAt p c.key else t).Wired := by
    intro t ht
    split
    · exact ht.quiet (Calms.killAt t _ _) (quiets_killAt t _ _) ht.knows
    · exact ht
  unfold Rendezvous.drain
  cases got with
  | none =>
      refine hkill
        (hw.quiet (Calms.modify_data fun _ => ⟨rfl, rfl, id, rfl, rfl, rfl, rfl⟩) ?_ hw.knows)
      refine Edits.modify_at (Quiet.refl s.cfg) hw.inv.distinct hc ⟨?_, fun hr => hr⟩
      exact ⟨rfl, Iff.rfl, fun _ => ⟨rfl, rfl, rfl, rfl, Nat.le_refl _, id⟩⟩
  | some bytes =>
      refine hkill (hw.calms (Calms.modify_data fun _ => ⟨rfl, rfl, id, rfl, rfl, rfl, rfl⟩) ?_
        (hw.pipes.grow hw.inv hc hj _ (hw.inv.deaf hc hgone)) hw.knows)
      intro e he
      rcases mem_all.mp he with ⟨x, hx, rfl⟩ | he
      · rcases mem_modify_cases
          (f := fun c => { c with received := c.received ++ bytes.take kReadChunk })
          hw.inv.distinct hc hx with rfl | ⟨hx, -⟩
        · exact Conn.Ready.of_leg hleg (hj.append _) hout
        · exact hw.ready x.conn (mem_all_of_held hx)
      · exact hw.ready e (mem_all.mpr (.inr he))

theorem Opposite.ne {x y : Held} (h : Opposite x y) : y.conn.relaySide ≠ x.conn.relaySide := by
  obtain ⟨side, hside, hother⟩ := h.sides
  have hne : ∀ side : Fin 2, 1 - side ≠ side := by decide
  rw [hside, hother]
  exact fun heq => hne side (Option.some.inj heq)

/-- What the partner of a leg is, where both are held. -/
theorem Inv.partner (hi : s.Inv) (hc : ⟨p, c⟩ ∈ s.held) (hleg : c.mode = .splice)
    (hfind : s.find p c.partner = some d) :
    ⟨p, d⟩ ∈ s.held ∧ d.key = c.partner ∧ d.key ≠ c.key ∧ d.mode = .splice ∧ d.partner = c.key := by
  obtain ⟨hd, hkey⟩ := mem_of_find hfind
  have hopp := (hi.paired _ hc hleg).2 _ hd hkey
  refine ⟨hd, hkey, fun hsame => ?_, hopp.mode, hopp.partner⟩
  have heq : d = c := congrArg Held.conn (hi.distinct.eq hd hc hsame)
  exact hopp.ne (congrArg Conn.relaySide heq)

/-- Two connections are ready, and the others as they were. -/
theorem ready_two {c' d' : Conn} (hready : ∀ e ∈ s.all, e.Ready s.cfg) (hcfg : s'.cfg = s.cfg)
    (hclosed : s'.closed = s.closed)
    (hmem : ∀ x ∈ s'.held, x = ⟨p, c'⟩ ∨ x = ⟨p, d'⟩ ∨
      x ∈ s.held ∧ x.conn.key ≠ c.key ∧ x.conn.key ≠ d.key)
    (hc' : c'.Ready s.cfg) (hd' : d'.Ready s.cfg) : ∀ e ∈ s'.all, e.Ready s'.cfg := by
  intro e he
  rw [hcfg]
  rcases mem_all.mp he with ⟨x, hx, rfl⟩ | he
  · rcases hmem x hx with rfl | rfl | ⟨hx, -, -⟩
    · exact hc'
    · exact hd'
    · exact hready x.conn (mem_all_of_held hx)
  · exact hready e (mem_all.mpr (.inr (hclosed ▸ he)))

/-- What a leg sends goes to its partner, or both die. -/
theorem Wired.forward (hw : s.Wired) (hc : ⟨p, c⟩ ∈ s.held) (hd : ⟨p, d⟩ ∈ s.held)
    (hne : d.key ≠ c.key) (hleg : c.mode = .splice) (hpartner : c.partner = d.key)
    (hdleg : d.mode = .splice) (hback : d.partner = c.key) (hidle : ¬ s.doing.holds c.key)
    (hdlive : d.dead = false) {sent : Bytes} {now : Instant}
    (hlen : sent.length ≤ s.cfg.spliceBuffer - d.out.length)
    (hroom : s.cfg.spliceBuffer - d.out.length ≠ 0) :
    let t := s.modify p c.key fun c => { c with received := c.received ++ sent, lastRx := now }
    let charged := t.charge c.relayId sent.length now
    (if !charged.1 then (charged.2.killAt p c.key).killAt p d.key
      else charged.2.modify p d.key fun d => { d with out := d.out ++ sent }).Wired := by
  intro t charged
  obtain ⟨hj, hcout⟩ := (hw.ready c (mem_all_of_held hc)).leg hleg
  obtain ⟨hdj, hdout⟩ := (hw.ready d (mem_all_of_held hd)).leg hdleg
  have hflow := hw.pipes.flow d (mem_all_of_held hd) hdleg c (mem_all_of_held hc) hback.symm
  obtain ⟨hwhole, hearly⟩ := hw.pipes.whole _ hd ⟨hdleg, hdlive⟩ c (mem_all_of_held hc) hback.symm
  have hempty : c.relayEarly = [] := hearly.resolve_right hidle
  have hknows : charged.2.service.Knows s.Control :=
    hw.knows.charge c.relayId sent.length now
  have ht : Calms s t := Calms.modify_data fun _ => ⟨rfl, rfl, id, rfl, rfl, rfl, rfl⟩
  have hcharged : Calms s charged.2 := ht.trans (Calms.charge t _ _ _)
  have hjoined : Joined c.joined (c.received ++ sent) := hj.append sent
  split
  · -- the budget is spent
    have hcalms := (hcharged.trans (Calms.killAt charged.2 p c.key)).trans (Calms.killAt _ p d.key)
    have hmem : ∀ x ∈ ((charged.2.killAt p c.key).killAt p d.key).held,
        x = ⟨p, { c with received := c.received ++ sent, lastRx := now, dead := true }⟩ ∨
          x = ⟨p, d.kill⟩ ∨ x ∈ s.held ∧ x.conn.key ≠ c.key ∧ x.conn.key ≠ d.key := by
      intro x hx
      have hfuse := modify_modify (s := s) (p := p) (k := c.key) (g := Conn.kill)
        (f := fun c => { c with received := c.received ++ sent, lastRx := now }) fun _ => rfl
      have hx' : x ∈ ((s.modify p c.key (Conn.kill ∘ fun c =>
          { c with received := c.received ++ sent, lastRx := now })).modify p d.key Conn.kill).held := by
        rw [← hfuse]
        exact hx
      exact mem_modify_two hw.inv.distinct hc hd hne hx' fun _ => rfl
    refine hw.calms hcalms (ready_two hw.ready hcalms.cfg hcalms.closed hmem ?_ ?_) ?_ hknows
    · exact Conn.Ready.of_leg hleg hjoined hcout
    · exact Conn.Ready.of_leg hdleg hdj hdout
    · refine hw.pipes.transfer hw.inv hc hd hne hleg hpartner hdleg hback hmem
        (keys_eq hcalms.keys hcalms.closed) hcalms.cfg hcalms.closed hcalms.nextKey
        ⟨rfl, rfl, rfl, rfl, rfl, fun _ => rfl⟩ ⟨rfl, rfl, rfl, rfl, rfl, fun _ => rfl⟩
        ⟨hleg, hpartner, ?_, hflow.room⟩ (fun h => Bool.noConfusion h) fun _ _ _ h => h
      have hmore := hflow.carried.trans (List.prefix_append _ sent)
      rw [List.append_assoc joinOk, ← payload_append hj] at hmore
      exact hmore
  · have hcalms := hcharged.trans (Calms.modify_data (p := p) (k := d.key)
      (f := fun d => { d with out := d.out ++ sent }) fun _ => ⟨rfl, rfl, id, rfl, rfl, rfl, rfl⟩)
    have hmem : ∀ x ∈ (charged.2.modify p d.key fun d => { d with out := d.out ++ sent }).held,
        x = ⟨p, { c with received := c.received ++ sent, lastRx := now }⟩ ∨
          x = ⟨p, { d with out := d.out ++ sent }⟩ ∨
          x ∈ s.held ∧ x.conn.key ≠ c.key ∧ x.conn.key ≠ d.key :=
      fun x hx => mem_modify_two (s := s)
        (f := fun c => { c with received := c.received ++ sent, lastRx := now })
        (g := fun d => { d with out := d.out ++ sent }) hw.inv.distinct hc hd hne hx fun _ => rfl
    have hout : (d.out ++ sent).length ≤ s.cfg.spliceBuffer := by
      rw [List.length_append]
      omega
    have hlimit : (d.out ++ sent).length ≤ outLimit s.cfg := Nat.le_trans hout (Nat.le_add_right _ _)
    have hall : d.written ++ (d.out ++ sent) ++ c.relayEarly =
        joinOk ++ (c.received ++ sent).drop c.joined.length := by
      rw [hempty, List.append_nil] at hwhole
      rw [hempty, List.append_nil, payload_append hj, ← List.append_assoc, ← List.append_assoc]
      exact congrArg (· ++ sent) hwhole
    refine hw.calms hcalms (ready_two hw.ready hcalms.cfg hcalms.closed hmem ?_ ?_) ?_ hknows
    · exact Conn.Ready.of_leg hleg hjoined hcout
    · exact Conn.Ready.of_leg hdleg hdj hlimit
    · refine hw.pipes.transfer hw.inv hc hd hne hleg hpartner hdleg hback hmem
        (keys_eq hcalms.keys hcalms.closed) hcalms.cfg hcalms.closed hcalms.nextKey
        ⟨rfl, rfl, rfl, rfl, rfl, id⟩ ⟨rfl, rfl, rfl, rfl, rfl, id⟩
        ⟨hleg, hpartner, ?_, ?_⟩ (fun _ => ⟨hall, .inl hempty⟩) fun _ _ _ h => h
      · exact hall ▸ List.prefix_rfl
      · rw [hempty]
        exact hlimit

/-- A read on a leg: at most the room of its partner, and onto the end of its
partner's buffer. -/
theorem Wired.spliceRead (hw : s.Wired) (hc : ⟨p, c⟩ ∈ s.held) (hleg : c.mode = .splice)
    (hidle : ¬ s.doing.holds c.key) (got : Recv) (now : Instant) :
    (s.spliceRead p c got now).Wired := by
  have hcalms := calms_spliceRead s p c got now
  unfold Rendezvous.spliceRead at hcalms ⊢
  cases hfind : s.find p c.partner with
  | none =>
      refine hw.drain hc hleg (fun d hd => ?_) got
      rw [hfind] at hd
      cases hd
  | some d =>
      rw [hfind] at hcalms
      dsimp only at hcalms ⊢
      split
      · rename_i hdead
        refine hw.drain hc hleg (fun e he => ?_) got
        rw [hfind] at he
        exact Option.some.inj he ▸ hdead
      split
      · exact hw
      rename_i hdlive hroom
      obtain ⟨hd, hdkey, hne, hdleg, hback⟩ := hw.inv.partner hc hleg hfind
      cases got with
      | none => exact hw.quiet (Calms.killAt s _ _) (quiets_killAt s _ _) hw.knows
      | some bytes =>
          dsimp only at hcalms ⊢
          split
          · exact hw
          rename_i hsome
          rw [if_neg hdlive, if_neg hroom, if_neg hsome] at hcalms
          have hlen : (bytes.take (min (s.cfg.spliceBuffer - d.out.length) kReadChunk)).length ≤
              s.cfg.spliceBuffer - d.out.length :=
            Nat.le_trans (List.length_take_le _ _) (Nat.min_le_left _ _)
          generalize bytes.take (min (s.cfg.spliceBuffer - d.out.length) kReadChunk) = sent
            at hcalms hlen ⊢
          exact hw.forward hc hd hne hleg hdkey.symm hdleg hback hidle
            (Bool.eq_false_of_not_eq_true hdlive) hlen hroom

/-- A read by the loop, in whichever mode the connection is. -/
theorem Wired.readFrom (hw : s.Wired) (hidle : s.doing = .nothing) (key : ConnKey) (got : Recv)
    (now : Instant) : (s.readFrom key got now).Wired := by
  unfold Rendezvous.readFrom
  cases hfind : s.find .loop key with
  | none => exact hw
  | some c =>
      obtain ⟨hc, rfl⟩ := mem_of_find hfind
      dsimp only
      split
      · exact hw
      rename_i hdead
      have hlive := Bool.eq_false_of_not_eq_true hdead
      cases hmode : c.mode with
      | splice =>
          refine hw.spliceRead hc hmode ?_ got now
          rw [hidle]
          exact id
      | relayWaiting => exact hw.readEarly hc hlive hmode got
      | new => exact hw.readChunk hc hlive (.inl hmode) got now
      | control => exact hw.readChunk hc hlive (.inr hmode) got now

/-- What the loop has to pass on is not with a worker. -/
theorem Wired.not_holds (hw : s.Wired) (hc : ⟨p, c⟩ ∈ s.held) (hp : p ≠ .loop) :
    ¬ s.doing.holds c.key := by
  intro hholds
  cases hd : s.doing with
  | nothing =>
      rw [hd] at hholds
      exact hholds
  | opened key msg =>
      rw [hd] at hholds
      exact hholds
  | passing src dst id again =>
      rw [hd] at hholds
      obtain ⟨⟨x, hx, hplace, hkey⟩, y, hy, hplace', hkey'⟩ := hw.stays src dst id again hd
      rcases hholds with hsame | ⟨-, hsame⟩
      · have heq := hw.inv.distinct.eq hc hx (hsame.trans hkey.symm)
        exact hp ((congrArg Held.place heq).trans hplace)
      · have heq := hw.inv.distinct.eq hc hy (hsame.trans hkey'.symm)
        exact hp ((congrArg Held.place heq).trans hplace')

/-- A read by a worker. -/
theorem Wired.workerRead (hw : s.Wired) (i : Nat) (key : ConnKey) (got : Recv) (now : Instant) :
    (s.workerRead i key got now).Wired := by
  unfold Rendezvous.workerRead
  cases hfind : s.find (.worker i) key with
  | none => exact hw
  | some c =>
      obtain ⟨hc, rfl⟩ := mem_of_find hfind
      dsimp only
      split
      · exact hw
      · have hplace : Place.worker i ≠ .loop := Place.noConfusion
        exact hw.spliceRead hc (hw.inv.moved _ hc hplace) (hw.not_holds hc hplace) got now

/-! ## Writing and reaping

From the buffer to the socket, and the ends of legs. -/

/-- Bytes taken by the socket leave the buffer at its front, so the pipe as a
whole stays as it was. -/
theorem Quiet.flushed {cfg : RendezvousConfig} (hout : c.out ≠ []) (n : Nat) :
    Quiet cfg c { c with out := c.out.drop n, written := c.written ++ c.out.take n } where
  still := by
    refine ⟨rfl, Iff.rfl, fun _ => ⟨rfl, rfl, rfl, ?_, ?_, id⟩⟩
    · rw [List.append_assoc, List.take_append_drop]
    · rw [List.length_drop]
      exact Nat.sub_le _ _
  ready := by
    intro hr
    unfold Conn.Ready at hr ⊢
    cases hmode : c.mode with
    | new =>
        rw [hmode] at hr
        exact absurd hr.1 hout
    | control => trivial
    | relayWaiting =>
        rw [hmode] at hr
        exact absurd hr.1 hout
    | splice =>
        rw [hmode] at hr
        refine ⟨hr.1, ?_⟩
        rw [List.length_drop]
        exact Nat.le_trans (Nat.sub_le _ _) hr.2

theorem Wired.killAt (hw : s.Wired) (p : Place) (key : ConnKey) : (s.killAt p key).Wired :=
  hw.quiet (Calms.killAt s p key) (quiets_killAt s p key) hw.knows

/-- A flush is quiet at each of its calls. -/
theorem Wired.flush (p : Place) (key : ConnKey) (sends : List Send) (hw : s.Wired) :
    (flush p key sends s).Wired := by
  induction sends generalizing s with
  | nil => exact hw
  | cons sent sends ih =>
      unfold Rendezvous.flush
      cases hfind : s.find p key with
      | none => exact hw
      | some c =>
          obtain ⟨hc, rfl⟩ := mem_of_find hfind
          dsimp only
          split
          · exact hw
          rename_i hlive
          have hout : c.out ≠ [] := by
            intro hempty
            rw [hempty, List.isEmpty_nil, Bool.or_true] at hlive
            exact hlive rfl
          cases sent with
          | none => exact hw.killAt p c.key
          | some n =>
              dsimp only
              split
              · exact hw
              · refine ih (hw.quiet (Calms.modify_data fun _ => ?_) ?_ hw.knows)
                · exact ⟨rfl, rfl, id, rfl, rfl, rfl, rfl⟩
                · exact Edits.modify_at (Quiet.refl s.cfg) hw.inv.distinct hc (Quiet.flushed hout n)

/-- A deadline moves no byte. -/
theorem Wired.expire (hw : s.Wired) (t : Thread) (key : ConnKey) (now : Instant) :
    (s.expire t key now).Wired := by
  unfold Rendezvous.expire
  cases s.find t.place key with
  | none => exact hw
  | some c =>
      dsimp only
      split
      · exact hw.killAt _ _
      · exact hw

/-- Nor does the end of a partner. -/
theorem Wired.follow (hw : s.Wired) (t : Thread) (key : ConnKey) : (s.follow t key).Wired := by
  unfold Rendezvous.follow
  cases s.find t.place key with
  | none => exact hw
  | some c =>
      dsimp only
      split
      · exact hw
      cases s.find t.place c.partner with
      | none => exact hw
      | some d =>
          dsimp only
          split
          · exact hw.killAt _ _
          · exact hw

end UConnect.Server.Rendezvous
