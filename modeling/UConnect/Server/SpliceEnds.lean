/-
  Server/SpliceEnds.lean --- what ends a leg of a spliced pair.

  The loop and a worker each have their own code that ends legs: on a read, on a
  write, on a timer, behind a dead partner and on closing.  `Ends` lists the
  reasons.  A leg whose partner has ended goes for three of them only: its own
  socket failed, nothing moved in either direction for `relay_idle_timeout`, or
  it has been sent everything.
-/
import UConnect.Server.SpliceRuns

set_option autoImplicit false

namespace UConnect.Server.Rendezvous

open UConnect UConnect.Foundation UConnect.Crypto UConnect.Wire

variable {P : Primitives} {s s' : Rendezvous} {p : Place} {k key : ConnKey} {c d : Conn}

/-! ## A live leg

A leg that is alive before a change and is not named by it is alive behind it. -/

/-- The connection `k` is held and is a live leg. -/
def LiveLeg (s : Rendezvous) (k : ConnKey) : Prop := ∃ x ∈ s.held, x.conn.key = k ∧ x.conn.Live

theorem LiveLeg.of_mem {x : Held} (hx : x ∈ s.held) (hlive : x.conn.Live) : s.LiveLeg x.conn.key :=
  ⟨x, hx, rfl, hlive⟩

theorem LiveLeg.of_held (h : s.LiveLeg k) (hheld : s'.held = s.held) : s'.LiveLeg k := by
  unfold LiveLeg
  rw [hheld]
  exact h

/-- Writing another connection leaves it alone. -/
theorem LiveLeg.modify_ne (h : s.LiveLeg k) (hne : k ≠ key) {f : Conn → Conn} :
    (s.modify p key f).LiveLeg k := by
  obtain ⟨x, hx, rfl, hlive⟩ := h
  exact ⟨x, mem_modify_of_ne hx hne, rfl, hlive⟩

/-- And so does writing its data. -/
theorem LiveLeg.modify (h : s.LiveLeg k) {f : Conn → Conn}
    (hf : ∀ c, (f c).key = c.key ∧ (f c).mode = c.mode ∧ (f c).dead = c.dead) :
    (s.modify p key f).LiveLeg k := by
  obtain ⟨x, hx, rfl, hlive⟩ := h
  refine ⟨_, List.mem_map_of_mem hx, ?_⟩
  split
  · obtain ⟨hkey, hmode, hdead⟩ := hf x.conn
    exact ⟨hkey, hmode.trans hlive.leg, hdead.trans hlive.alive⟩
  · exact ⟨rfl, hlive⟩

theorem LiveLeg.moves (h : s.LiveLeg k) (hm : Moves s s') : s'.LiveLeg k := by
  obtain ⟨x, hx, rfl, hlive⟩ := h
  obtain ⟨g, hg, hsame⟩ := hm.edits.held
  refine ⟨g x, hg ▸ List.mem_map_of_mem hx, ?_⟩
  rw [← hsame x hx]
  exact ⟨rfl, hlive⟩

theorem LiveLeg.killAt_ne (h : s.LiveLeg k) (hne : k ≠ key) : (s.killAt p key).LiveLeg k :=
  h.modify_ne hne

theorem LiveLeg.ne_control (h : s.LiveLeg k) (hcontrol : s.Control key) : k ≠ key := by
  obtain ⟨x, hx, rfl, hlive⟩ := h
  intro hkey
  have hmode := hcontrol.2 x hx hkey
  rw [hlive.leg] at hmode
  cases hmode

theorem LiveLeg.ne_mode (h : s.LiveLeg k) (hd : s.Distinct) (hc : ⟨p, c⟩ ∈ s.held)
    (hmode : c.mode ≠ .splice) : k ≠ c.key := by
  obtain ⟨x, hx, rfl, hlive⟩ := h
  intro hkey
  have heq : x.conn = c := congrArg Held.conn (hd.eq hx hc hkey)
  exact hmode (heq ▸ hlive.leg)

theorem LiveLeg.ne_name (h : s.LiveLeg k) (hi : s.Inv) {side : Fin 2} {id : RelayId}
    (hname : (s.waiting side).lookup id = some key) : k ≠ key := by
  obtain ⟨x, hx, rfl, hlive⟩ := h
  intro hkey
  have hmode := (hi.named_eq hname hx hkey).2.1
  rw [hlive.leg] at hmode
  cases hmode

/-! ## Frames

No frame of the service, and no frame of another connection, ends a leg. -/

theorem LiveLeg.deliver (h : s.LiveLeg k) {f : Framed} (hf : s.Control f.dst) :
    (s.deliver f).LiveLeg k := by
  unfold Rendezvous.deliver
  cases s.find .loop f.dst with
  | none => exact h
  | some c =>
      dsimp only
      split
      · exact h
      split
      · exact h.killAt_ne (h.ne_control hf)
      · exact h.modify_ne (h.ne_control hf)

theorem LiveLeg.foldl_deliver (fs : List Framed) (h : s.LiveLeg k)
    (hfs : ∀ f ∈ fs, s.Control f.dst) : (fs.foldl Rendezvous.deliver s).LiveLeg k := by
  induction fs generalizing s with
  | nil => exact h
  | cons f fs ih =>
      have htame := Tame.calms (calms_deliver s f)
      refine ih (h.deliver (hfs f List.mem_cons_self)) fun g hg => ?_
      exact htame.control (hfs g (List.mem_cons_of_mem _ hg))

theorem LiveLeg.onControl (h : s.LiveLeg k) (hw : s.Wired) (hkey : s.Control key) (msg : Bytes)
    (now : Instant) (v : Verdict) : (s.onControl P key msg now v).LiveLeg k := by
  unfold Rendezvous.onControl
  cases hm : s.service.onMessage P key msg now v.admitted v.draws with
  | none => exact h
  | some r =>
      have hout := LiveLeg.foldl_deliver (s := { s with service := r.2 }) r.1.out h fun f hf =>
        hw.knows.recipient hm hf
      dsimp only
      split
      · exact hout.killAt_ne (h.ne_control hkey)
      · exact hout

theorem LiveLeg.pair (h : s.LiveLeg k) (hi : s.Inv) (hne : k ≠ key) (side : Fin 2) (id : RelayId) :
    (s.pair key side id).LiveLeg k := by
  have hwait : ∀ {t : Rendezvous}, t.LiveLeg k → (t.wait key side id).LiveLeg k :=
    fun ht => LiveLeg.of_held (ht.modify_ne hne) rfl
  unfold Rendezvous.pair
  cases hname : (s.waiting (1 - side)).lookup id with
  | none => exact hwait h
  | some other =>
      have hunwait : (s.unwait (1 - side) id).LiveLeg k := h
      dsimp only
      cases (s.unwait (1 - side) id).find .loop other with
      | none => exact hwait hunwait
      | some d =>
          dsimp only
          split
          · exact hwait hunwait
          · have hfirst := hunwait.modify_ne (p := .loop) (f := fun c => c.toSplice other) hne
            have hboth := hfirst.modify_ne (p := .loop) (f := fun p => p.toSplice key)
              (h.ne_name hi hname)
            exact hboth.of_held rfl

theorem LiveLeg.onRelayJoin (h : s.LiveLeg k) (hi : s.Inv) (hc : ⟨.loop, c⟩ ∈ s.held)
    (hnew : c.mode = .new) (msg : Bytes) : (s.onRelayJoin c msg).LiveLeg k := by
  have hne : k ≠ c.key := by
    refine h.ne_mode hi.distinct hc ?_
    rw [hnew]
    exact Mode.noConfusion
  unfold Rendezvous.onRelayJoin
  cases s.joinSide msg with
  | none => exact h.killAt_ne hne
  | some joined =>
      obtain ⟨relay, side⟩ := joined
      dsimp only
      generalize c.reader.takeRest.1 = early
      have hraw : Calms s (s.modify .loop c.key fun d => d.toRaw early msg) :=
        Calms.modify_data fun _ => ⟨rfl, rfl, id, rfl, rfl, rfl, rfl⟩
      split
      · exact (h.modify_ne hne).killAt_ne hne
      · have hmem : ⟨.loop, c.toRaw early msg⟩ ∈
            (s.modify .loop c.key fun d => d.toRaw early msg).held := mem_modify_self hc
        have hinv := (hi.calms hraw).calms
          (calms_takeSide (hi.calms hraw).distinct hmem hnew relay side)
        have hsided : Rendezvous.LiveLeg ((s.modify .loop c.key fun d => d.toRaw early msg).modify
            .loop c.key fun d => d.takeSide relay side) k := (h.modify_ne hne).modify_ne hne
        refine LiveLeg.pair ?_ (hinv.replaceEarlier side relay).1 hne side relay
        unfold Rendezvous.replaceEarlier
        split
        · exact hsided
        · rename_i old hname
          exact LiveLeg.of_held (hsided.killAt_ne (hsided.ne_name hinv hname)) rfl

theorem LiveLeg.takeFrame (h : s.LiveLeg k) (hw : s.Wired) (key : ConnKey) (now : Instant)
    (v : Verdict) : (s.takeFrame P key now v).LiveLeg k := by
  unfold Rendezvous.takeFrame
  cases hfind : s.find .loop key with
  | none => exact h
  | some c =>
      obtain ⟨hc, rfl⟩ := mem_of_find hfind
      dsimp only
      split
      · exact h
      rename_i hlive
      simp only [Bool.or_eq_true, not_or, Bool.not_eq_true] at hlive
      have hread : Rendezvous.LiveLeg (s.modify .loop c.key fun d => { d with reader := c.reader.next.2 })
          k := h.modify fun _ => ⟨rfl, rfl, rfl⟩
      have hcalms : Calms s (s.modify .loop c.key fun d => { d with reader := c.reader.next.2 }) :=
        Calms.modify_data fun _ => ⟨rfl, rfl, id, rfl, rfl, rfl, rfl⟩
      have hmem := mem_modify_self (f := fun d => { d with reader := c.reader.next.2 }) hc
      have hne : c.mode ≠ .splice → k ≠ c.key := h.ne_mode hw.inv.distinct hc
      cases hmode : c.mode with
      | new =>
          rw [hmode] at hne
          cases c.reader.next.1 with
          | none =>
              dsimp only
              split
              · exact hread.killAt_ne (hne Mode.noConfusion)
              · exact hread
          | some msg =>
              unfold Rendezvous.onFrame
              dsimp only
              split
              · exact hread.onRelayJoin (hw.inv.calms hcalms) hmem hmode msg
              · have hopened := hread.modify_ne (p := .loop) (f := fun d => { d with mode := .control })
                  (hne Mode.noConfusion)
                exact hopened.of_held rfl
      | control =>
          rw [hmode] at hne
          have hreads := hw.reads hc hmode c.reader.next.2
          cases c.reader.next.1 with
          | none =>
              dsimp only
              split
              · exact hread.killAt_ne (hne Mode.noConfusion)
              · exact hread
          | some msg =>
              unfold Rendezvous.onFrame
              refine hread.onControl hreads ⟨hw.inv.old _ hc, fun x hx hkey => ?_⟩ msg now v
              have heq := hreads.inv.distinct.eq hx hmem hkey
              rw [heq]
              exact hmode
      | relayWaiting =>
          rw [Conn.raw, hmode] at hlive
          exact absurd hlive.2 (by decide)
      | splice =>
          rw [Conn.raw, hmode] at hlive
          exact absurd hlive.2 (by decide)

/-! ## Why a leg ends

The reasons, action by action. -/

/-- What the leg `x` or its partner has sent is over the budget of their relay,
or the relay is gone. -/
inductive Refused (s : Rendezvous) (x : Held) : Action → Prop
  /-- It was read while both were there. -/
  | read {t : Thread} {key : ConnKey} {bytes : Bytes} {now : Instant} {y : Held} {n : Nat}
      (either : key = x.conn.key ∨ key = x.conn.partner) (place : t.place = x.place)
      (mem : y ∈ s.held) (partner : y.conn.key = x.conn.partner) (live : y.conn.Live)
      (pos : 0 < n) (enough : n ≤ bytes.length)
      (charge : (s.service.registry.relayCharge x.conn.relayId n now).1 = false) :
      Refused s x (.read t key (some bytes) now)
  /-- It was read before they were a pair. -/
  | early {src dst : ConnKey} {relay : RelayId} {again : Bool} {now : Instant} {v : Verdict} {c : Conn}
      (passing : s.doing = .passing src dst relay again)
      (between : x.conn.key = src ∧ x.conn.partner = dst ∨ x.conn.key = dst ∧ x.conn.partner = src)
      (mem : ⟨.loop, c⟩ ∈ s.held) (own : c.key = src) (sent : c.relayEarly ≠ [])
      (charge : (s.service.registry.relayCharge relay c.relayEarly.length now).1 = false) :
      Refused s x (.goOn now v)

/-- Nothing has been read from the leg `x` for `relay_idle_timeout`, and nothing
from its partner either, dead or alive, if there still is one: a leg is not idle
while its partner streams. -/
structure Idle (s : Rendezvous) (x : Held) (now : Instant) : Prop where
  own : now - x.conn.lastRx > s.cfg.relayIdleTimeout
  partner : ∀ y ∈ s.held, y.conn.key = x.conn.partner →
    now - y.conn.lastRx > s.cfg.relayIdleTimeout

/-- What may end the live leg `x`. -/
inductive Ends (s : Rendezvous) (x : Held) : Action → Prop
  /-- Its socket took an error for an answer. -/
  | failed {t : Thread} {key : ConnKey} {sends : List Send} (own : key = x.conn.key)
      (place : t.place = x.place) (error : none ∈ sends) : Ends s x (.flush t key sends)
  /-- Nothing has moved for too long, either way. -/
  | idle {t : Thread} {key : ConnKey} {now : Instant} (own : key = x.conn.key)
      (place : t.place = x.place) (late : Idle s x now) : Ends s x (.expire t key now)
  /-- It ended by itself, with its partner still there. -/
  | left {t : Thread} {key : ConnKey} {now : Instant} {y : Held} (own : key = x.conn.key)
      (place : t.place = x.place) (mem : y ∈ s.held) (partner : y.conn.key = x.conn.partner)
      (live : y.conn.Live) : Ends s x (.read t key none now)
  /-- The budget is spent. -/
  | spent {a : Action} (refused : Refused s x a) : Ends s x a
  /-- Its partner has ended, and it has been sent all that the partner sent. -/
  | served {a : Action} {c : Conn} (gone : ∀ y ∈ s.held, y.conn.key = x.conn.partner → y.conn.dead = true)
      (mem : c ∈ s.all) (partner : c.key = x.conn.partner)
      (all : x.conn.written = joinOk ++ c.payload) : Ends s x a

theorem Doing.holds.passing {doing : Doing} (h : doing.holds k) :
    ∃ src dst id again, doing = .passing src dst id again := by
  cases doing with
  | nothing => exact h.elim
  | opened key msg => exact h.elim
  | passing src dst id again => exact ⟨src, dst, id, again, rfl⟩

/-- A leg without a partner that has nothing held for it has been sent
everything. -/
theorem Wired.served_ends (hw : s.Wired) {x : Held} (hx : x ∈ s.held) (hlive : x.conn.Live)
    (hgone : ∀ y ∈ s.held, y.conn.key = x.conn.partner → y.conn.dead = true) (hout : x.conn.out = [])
    (hidle : x.place = .loop → s.doing = .nothing) (a : Action) : Ends s x a := by
  obtain ⟨c, hc, hkey⟩ := List.mem_map.mp (hw.pipes.mates x.conn (mem_all_of_held hx) hlive.leg)
  obtain ⟨hall, hearly⟩ := hw.pipes.whole x hx hlive c hc hkey
  have hnot : ¬ s.doing.holds c.key := by
    intro hholds
    obtain ⟨src, dst, relay, again, hd⟩ := hholds.passing
    have hloop : ∃ z ∈ s.held, z.place = .loop ∧ z.conn.key = c.key := by
      obtain ⟨hsrc, hdst⟩ := hw.stays src dst relay again hd
      rw [hd] at hholds
      rcases hholds with hsame | ⟨-, hsame⟩
      · exact hsame ▸ hsrc
      · exact hsame ▸ hdst
    obtain ⟨z, hz, hplace, hzkey⟩ := hloop
    have hopp := (hw.inv.paired x hx hlive.leg).2 z hz (hzkey.trans hkey)
    cases (hidle (hopp.place.symm.trans hplace)).symm.trans hd
  rw [hout, List.append_nil, hearly.resolve_right hnot, List.append_nil] at hall
  exact .served hgone hc hkey hall

/-- The partner that a leg has, if any, is in its place. -/
theorem Inv.gone_of_find (hi : s.Inv) (hc : ⟨p, c⟩ ∈ s.held) (hleg : c.mode = .splice)
    (hgone : ∀ d, s.find p c.partner = some d → d.dead = true) :
    ∀ y ∈ s.held, y.conn.key = c.partner → y.conn.dead = true := by
  intro y hy hkey
  have hopp := (hi.paired _ hc hleg).2 y hy hkey
  have hfind := hi.distinct.find hy
  rw [hopp.place, hkey] at hfind
  exact hgone y.conn hfind

theorem Wired.drain_ends (hw : s.Wired) {x : Held} (hx : x ∈ s.held) (hlive : x.conn.Live)
    (hc : ⟨p, c⟩ ∈ s.held) (hgone : ∀ d, s.find p c.partner = some d → d.dead = true) (got : Recv)
    (hidle : p = .loop → s.doing = .nothing) (a : Action) :
    (s.drain p c got).LiveLeg x.conn.key ∨ Ends s x a := by
  have hleg := LiveLeg.of_mem hx hlive
  have hends : x.conn.key = c.key → c.out.isEmpty = true → Ends s x a := by
    intro hkey hempty
    obtain rfl := hw.inv.distinct.eq hx hc hkey
    exact hw.served_ends hx hlive (hw.inv.gone_of_find hx hlive.leg hgone) (List.isEmpty_iff.mp hempty)
      hidle a
  have hkill : ∀ {t : Rendezvous}, t.LiveLeg x.conn.key →
      (if c.out.isEmpty then t.killAt p c.key else t).LiveLeg x.conn.key ∨ Ends s x a := by
    intro t ht
    split
    · rename_i hempty
      by_cases hkey : x.conn.key = c.key
      · exact .inr (hends hkey hempty)
      · exact .inl (ht.killAt_ne hkey)
    · exact .inl ht
  unfold Rendezvous.drain
  cases got with
  | none => exact hkill (hleg.modify fun _ => ⟨rfl, rfl, rfl⟩)
  | some bytes => exact hkill (hleg.modify fun _ => ⟨rfl, rfl, rfl⟩)

/-- Reading a leg ends it, or its partner, for a reason. -/
theorem Wired.spliceRead_ends (hw : s.Wired) {x : Held} (hx : x ∈ s.held) (hlive : x.conn.Live)
    {t : Thread} (hc : ⟨t.place, c⟩ ∈ s.held) (hleg : c.mode = .splice) (halive : c.dead = false)
    (got : Recv) (now : Instant) (hidle : t.place = .loop → s.doing = .nothing) :
    (s.spliceRead t.place c got now).LiveLeg x.conn.key ∨ Ends s x (.read t c.key got now) := by
  have hkept := LiveLeg.of_mem hx hlive
  unfold Rendezvous.spliceRead
  cases hfind : s.find t.place c.partner with
  | none =>
      refine hw.drain_ends hx hlive hc (fun d hd => ?_) got hidle _
      rw [hfind] at hd
      cases hd
  | some d =>
      dsimp only
      split
      · rename_i hdead
        refine hw.drain_ends hx hlive hc (fun e he => ?_) got hidle _
        rw [hfind] at he
        exact Option.some.inj he ▸ hdead
      split
      · exact .inl hkept
      rename_i hdlive hroom
      obtain ⟨hd, hdkey, hne, hdleg, hback⟩ := hw.inv.partner hc hleg hfind
      have hdalive : d.Live := ⟨hdleg, Bool.eq_false_of_not_eq_true hdlive⟩
      cases got with
      | none =>
          dsimp only
          by_cases hkey : x.conn.key = c.key
          · obtain rfl := hw.inv.distinct.eq hx hc hkey
            exact .inr (.left rfl rfl hd hdkey hdalive)
          · exact .inl (hkept.killAt_ne hkey)
      | some bytes =>
          dsimp only
          split
          · exact .inl hkept
          rename_i hsome
          have henough :=
            List.length_take_le' (min (s.cfg.spliceBuffer - d.out.length) kReadChunk) bytes
          generalize bytes.take (min (s.cfg.spliceBuffer - d.out.length) kReadChunk) = sent
            at hsome henough ⊢
          have hpos : 0 < sent.length := by
            cases sent with
            | nil => exact absurd rfl hsome
            | cons b bs => exact Nat.succ_pos _
          have hgrown : Rendezvous.LiveLeg (s.modify t.place c.key fun c =>
              { c with received := c.received ++ sent, lastRx := now }) x.conn.key :=
            hkept.modify fun _ => ⟨rfl, rfl, rfl⟩
          have hcharged : Rendezvous.LiveLeg (Rendezvous.charge (s.modify t.place c.key fun c =>
              { c with received := c.received ++ sent, lastRx := now }) c.relayId sent.length now).2
              x.conn.key := hgrown.of_held rfl
          split
          · rename_i hrefused
            have hspent : (s.service.registry.relayCharge c.relayId sent.length now).1 = false :=
              Bool.not_eq_true' _ |>.mp hrefused
            by_cases hkey : x.conn.key = c.key
            · obtain rfl := hw.inv.distinct.eq hx hc hkey
              exact .inr (.spent (.read (.inl rfl) rfl hd hdkey hdalive hpos henough hspent))
            · by_cases hkey' : x.conn.key = d.key
              · obtain rfl := hw.inv.distinct.eq hx hd hkey'
                have hopp := (hw.inv.paired _ hc hleg).2 _ hd hdkey
                have hspent' : (s.service.registry.relayCharge d.relayId sent.length now).1 = false :=
                  hopp.relay ▸ hspent
                exact .inr (.spent (.read (.inr hback.symm) rfl hc hback.symm ⟨hleg, halive⟩ hpos henough
                  hspent'))
              · exact .inl ((hcharged.killAt_ne hkey).killAt_ne hkey')
          · exact .inl (hcharged.modify fun _ => ⟨rfl, rfl, rfl⟩)

theorem Wired.readFrom_ends (hw : s.Wired) (hidle : s.doing = .nothing) {x : Held} (hx : x ∈ s.held)
    (hlive : x.conn.Live) (key : ConnKey) (got : Recv) (now : Instant) :
    (s.readFrom key got now).LiveLeg x.conn.key ∨ Ends s x (.read .loop key got now) := by
  have hkept := LiveLeg.of_mem hx hlive
  unfold Rendezvous.readFrom
  cases hfind : s.find .loop key with
  | none => exact .inl hkept
  | some c =>
      obtain ⟨hc, rfl⟩ := mem_of_find hfind
      dsimp only
      split
      · exact .inl hkept
      rename_i hdead
      have hne : c.mode ≠ .splice → x.conn.key ≠ c.key := hkept.ne_mode hw.inv.distinct hc
      have hchunk : c.mode ≠ .splice → (s.readChunk c got now).LiveLeg x.conn.key := by
        intro hmode
        unfold Rendezvous.readChunk
        cases got with
        | none => exact hkept.killAt_ne (hne hmode)
        | some bytes =>
            dsimp only
            split
            · exact hkept
            split
            · exact hkept.modify_ne (hne hmode)
            · exact (hkept.modify_ne (hne hmode)).killAt_ne (hne hmode)
      cases hmode : c.mode with
      | splice =>
          exact hw.spliceRead_ends (t := .loop) hx hlive hc hmode (Bool.eq_false_of_not_eq_true hdead)
            got now fun _ => hidle
      | relayWaiting =>
          rw [hmode] at hne
          refine .inl ?_
          unfold Rendezvous.readEarly
          cases got with
          | none => exact hkept.killAt_ne (hne Mode.noConfusion)
          | some bytes =>
              dsimp only
              split
              · exact (hkept.modify_ne (hne Mode.noConfusion)).killAt_ne (hne Mode.noConfusion)
              · exact (hkept.modify_ne (hne Mode.noConfusion)).modify_ne (hne Mode.noConfusion)
      | new =>
          rw [hmode] at hchunk
          exact .inl (hchunk Mode.noConfusion)
      | control =>
          rw [hmode] at hchunk
          exact .inl (hchunk Mode.noConfusion)

theorem Wired.workerRead_ends (hw : s.Wired) {x : Held} (hx : x ∈ s.held) (hlive : x.conn.Live) (i : Nat)
    (key : ConnKey) (got : Recv) (now : Instant) :
    (s.workerRead i key got now).LiveLeg x.conn.key ∨ Ends s x (.read (.worker i) key got now) := by
  unfold Rendezvous.workerRead
  cases hfind : s.find (.worker i) key with
  | none => exact .inl (LiveLeg.of_mem hx hlive)
  | some c =>
      obtain ⟨hc, rfl⟩ := mem_of_find hfind
      dsimp only
      split
      · exact .inl (LiveLeg.of_mem hx hlive)
      · rename_i hdead
        have hplace : Place.worker i ≠ .loop := Place.noConfusion
        exact hw.spliceRead_ends (t := .worker i) hx hlive hc (hw.inv.moved _ hc hplace)
          (Bool.eq_false_of_not_eq_true hdead) got now fun hloop => absurd hloop hplace

theorem flush_ends (t : Thread) (key : ConnKey) (sends : List Send) (h : s.LiveLeg k) :
    (flush t.place key sends s).LiveLeg k ∨
      key = k ∧ none ∈ sends ∧ ∃ c, ⟨t.place, c⟩ ∈ s.held ∧ c.key = k := by
  induction sends generalizing s with
  | nil => exact .inl h
  | cons sent sends ih =>
      unfold Rendezvous.flush
      cases hfind : s.find t.place key with
      | none => exact .inl h
      | some c =>
          obtain ⟨hc, rfl⟩ := mem_of_find hfind
          dsimp only
          split
          · exact .inl h
          cases sent with
          | none =>
              dsimp only
              by_cases hkey : k = c.key
              · exact .inr ⟨hkey.symm, List.mem_cons_self, c, hc, hkey.symm⟩
              · exact .inl (h.killAt_ne hkey)
          | some n =>
              dsimp only
              split
              · exact .inl h
              · have hwritten : (s.modify t.place c.key fun c =>
                    { c with out := c.out.drop n, written := c.written ++ c.out.take n }).LiveLeg k :=
                  h.modify fun _ => ⟨rfl, rfl, rfl⟩
                rcases ih hwritten with hkept | ⟨hkey, herror, -⟩
                · exact .inl hkept
                · exact .inr ⟨hkey, List.mem_cons_of_mem _ herror, c, hc, hkey⟩

/-- An expired leg has been idle for too long, and so has its partner. -/
theorem Inv.idle_of_expired (hi : s.Inv) {t : Thread} {now : Instant}
    (hc : ⟨t.place, c⟩ ∈ s.held) (hleg : c.mode = .splice) (h : s.expired t c now = true) :
    Idle s ⟨t.place, c⟩ now := by
  have hidle : s.spliceIdle t.place c now = true := by
    cases t with
    | loop => simpa [expired, hleg, Thread.place] using h
    | worker i => exact h
  simp only [spliceIdle, Bool.and_eq_true, decide_eq_true_eq] at hidle
  obtain ⟨⟨-, hown⟩, hpartner⟩ := hidle
  refine ⟨hown, fun y hy hkey => ?_⟩
  -- the partner is in the place the leg is looked for in
  have hplace : y.place = t.place := ((hi.paired _ hc hleg).2 y hy hkey).place
  have hfind := hi.distinct.find hy
  rw [hplace, hkey] at hfind
  rw [hfind] at hpartner
  exact of_decide_eq_true hpartner

theorem Wired.expire_ends (hw : s.Wired) {x : Held} (hx : x ∈ s.held) (hlive : x.conn.Live) (t : Thread)
    (key : ConnKey) (now : Instant) :
    (s.expire t key now).LiveLeg x.conn.key ∨ Ends s x (.expire t key now) := by
  have hkept := LiveLeg.of_mem hx hlive
  unfold Rendezvous.expire
  cases hfind : s.find t.place key with
  | none => exact .inl hkept
  | some c =>
      obtain ⟨hc, rfl⟩ := mem_of_find hfind
      dsimp only
      split
      · rename_i hexpired
        by_cases hkey : x.conn.key = c.key
        · obtain rfl := hw.inv.distinct.eq hx hc hkey
          have hlate := (Bool.and_eq_true_iff.mp hexpired).2
          exact .inr (.idle rfl rfl (hw.inv.idle_of_expired hc hlive.leg hlate))
        · exact .inl (hkept.killAt_ne hkey)
      · exact .inl hkept

theorem Wired.follow_ends (hw : s.Wired) {x : Held} (hx : x ∈ s.held) (hlive : x.conn.Live) (t : Thread)
    (key : ConnKey) (hidle : t.place = .loop → s.doing = .nothing) :
    (s.follow t key).LiveLeg x.conn.key ∨ Ends s x (.follow t key) := by
  have hkept := LiveLeg.of_mem hx hlive
  unfold Rendezvous.follow
  cases hfind : s.find t.place key with
  | none => exact .inl hkept
  | some c =>
      obtain ⟨hc, rfl⟩ := mem_of_find hfind
      dsimp only
      split
      · exact .inl hkept
      rename_i hdead
      cases hfind' : s.find t.place c.partner with
      | none => exact .inl hkept
      | some d =>
          obtain ⟨hd, hdkey⟩ := mem_of_find hfind'
          dsimp only
          split
          · rename_i hempty
            by_cases hkey : x.conn.key = c.partner
            · obtain rfl := hw.inv.distinct.eq hx hd (hkey.trans hdkey.symm)
              obtain ⟨hcdead, hleg⟩ := not_or.mp (fun h => hdead ((Bool.or_eq_true _ _).mpr h))
              have hmode : c.mode = .splice := by
                cases t with
                | loop => simpa using hleg
                | worker i => exact hw.inv.moved _ hc Place.noConfusion
              have hback := ((hw.inv.paired _ hc hmode).2 _ hd hdkey).partner
              refine .inr (hw.served_ends hx hlive (fun y hy hykey => ?_) ?_ hidle _)
              · obtain rfl := hw.inv.distinct.eq hy hc (hykey.trans hback)
                simpa using hcdead
              · exact List.isEmpty_iff.mp (Bool.and_eq_true_iff.mp hempty).2
            · exact .inl (hkept.killAt_ne hkey)
          · exact .inl hkept

theorem Wired.close_ends (hw : s.Wired) {x : Held} (hx : x ∈ s.held) (hlive : x.conn.Live) (t : Thread)
    (key : ConnKey) (hidle : t.place = .loop → s.doing = .nothing) :
    (s.close t key).LiveLeg x.conn.key ∨ Ends s x (.close t key) := by
  have hkept := LiveLeg.of_mem hx hlive
  unfold Rendezvous.close
  cases hfind : s.find t.place key with
  | none => exact .inl hkept
  | some c =>
      obtain ⟨hc, rfl⟩ := mem_of_find hfind
      dsimp only
      split
      · exact .inl hkept
      rename_i hgoes
      by_cases hkey : x.conn.key = c.key
      · obtain rfl := hw.inv.distinct.eq hx hc hkey
        have horphan : s.orphan t c = true := by
          have halive : c.dead = false := hlive.alive
          simpa [halive] using hgoes
        simp only [orphan, Bool.and_eq_true] at horphan
        obtain ⟨⟨-, hgone⟩, hout⟩ := horphan
        refine .inr (hw.served_ends hx hlive (hw.inv.gone_of_find hx hlive.leg fun d hd => ?_)
          (List.isEmpty_iff.mp hout) hidle _)
        rw [hd] at hgone
        exact hgone
      · refine .inl ⟨x, ?_, rfl, hlive⟩
        have hheld : (Rendezvous.release (if t = .loop then s.forget c else s) c.ip).held = s.held := by
          rw [(leaves_release _ _).1.held]
          split
          · exact (leaves_forget s c).held
          · rfl
        rw [hheld]
        refine (List.mem_eraseP_of_neg fun htest => hkey ?_).mpr hx
        exact of_decide_eq_true (Bool.and_eq_true_iff.mp htest).2

theorem Wired.passEarly_ends (hw : s.Wired) {x : Held} (hx : x ∈ s.held) (hlive : x.conn.Live)
    {src dst : ConnKey} {relay : RelayId} {again : Bool} (hd : s.doing = .passing src dst relay again)
    (now : Instant) (v : Verdict) :
    (s.passEarly src dst relay again now).LiveLeg x.conn.key ∨ Ends s x (.goOn now v) := by
  have hkept := LiveLeg.of_mem hx hlive
  have hpassed : ∀ {t : Rendezvous}, t.LiveLeg x.conn.key →
      (t.passed src dst relay again).LiveLeg x.conn.key :=
    fun ht => ht.of_held (passed_fields _ src dst relay again).1
  obtain ⟨hleft, hright, -⟩ := hw.inv.passing src dst relay again hd
  unfold Rendezvous.passEarly
  cases hfind : s.find .loop src with
  | none => exact .inl (hkept.of_held rfl)
  | some c =>
      dsimp only
      have htaken : Rendezvous.LiveLeg (s.modify .loop src fun c => { c with relayEarly := [] })
          x.conn.key := hkept.modify fun _ => ⟨rfl, rfl, rfl⟩
      have hcharged : Rendezvous.LiveLeg (Rendezvous.charge (s.modify .loop src fun c =>
          { c with relayEarly := [] }) relay c.relayEarly.length now).2 x.conn.key := htaken.of_held rfl
      split
      · exact .inl (hpassed htaken)
      rename_i hearly
      split
      · exact .inl (hpassed (hcharged.modify fun _ => ⟨rfl, rfl, rfl⟩))
      · rename_i hrefused
        obtain ⟨hc, hckey⟩ := mem_of_find hfind
        have hsome : c.relayEarly ≠ [] := fun h => hearly (List.isEmpty_iff.mpr h)
        have hspent := Bool.eq_false_of_not_eq_true hrefused
        by_cases hsrc : x.conn.key = src
        · exact .inr (.spent (.early hd (.inl ⟨hsrc, (hleft x hx hsrc).2⟩) hc hckey hsome hspent))
        by_cases hdst : x.conn.key = dst
        · exact .inr (.spent (.early hd (.inr ⟨hdst, (hright x hx hdst).2⟩) hc hckey hsome hspent))
        · exact .inl (((hcharged.killAt_ne hsrc).killAt_ne hdst).of_held rfl)

/-- A live leg is one afterwards, or an action ended it for one of the reasons. -/
theorem Wired.act_ends (hw : s.Wired) {x : Held} (hx : x ∈ s.held) (hlive : x.conn.Live) (a : Action)
    (hidle : a.fresh = true → s.doing = .nothing) :
    (s.act P a).LiveLeg x.conn.key ∨ Ends s x a := by
  have hkept := LiveLeg.of_mem hx hlive
  have hthread : ∀ {t : Thread}, (t = .loop → s.doing = .nothing) → t.place = .loop →
      s.doing = .nothing := by
    intro t ht hplace
    cases t with
    | loop => exact ht rfl
    | worker i => cases hplace
  cases a with
  | accept peer now =>
      refine .inl ⟨x, ?_, rfl, hlive⟩
      show x ∈ (s.accept peer now).held
      unfold Rendezvous.accept
      cases peer with
      | none => exact hx
      | some peer =>
          dsimp only
          split
          · split <;> exact hx
          · exact List.mem_cons_of_mem _ hx
  | read t key got now =>
      cases t with
      | loop => exact hw.readFrom_ends (hidle rfl) hx hlive key got now
      | worker i => exact hw.workerRead_ends hx hlive i key got now
  | frame key now v => exact .inl (hkept.takeFrame hw key now v)
  | goOn now v =>
      show (s.goOn P now v).LiveLeg x.conn.key ∨ _
      unfold Rendezvous.goOn
      cases hd : s.doing with
      | nothing => exact .inl hkept
      | opened key msg =>
          have hidle' : Rendezvous.LiveLeg { s with doing := .nothing } x.conn.key := hkept.of_held rfl
          exact .inl (hidle'.onControl (hw.unopened hd) (hw.opened key msg hd) msg now v)
      | passing src dst relay again => exact hw.passEarly_ends hx hlive hd now v
  | flush t key sends =>
      rcases flush_ends t key sends hkept with hlater | ⟨hkey, herror, c, hc, hckey⟩
      · exact .inl hlater
      · obtain rfl := hw.inv.distinct.eq hx hc hckey.symm
        exact .inr (.failed hkey rfl herror)
  | expire t key now => exact hw.expire_ends hx hlive t key now
  | follow t key =>
      exact hw.follow_ends hx hlive t key (hthread fun ht => hidle (by rw [ht]; rfl))
  | close t key =>
      exact hw.close_ends hx hlive t key (hthread fun ht => hidle (by rw [ht]; rfl))
  | handOff => exact .inl (hkept.moves (moves_handOff s))
  | takeInbox i => exact .inl (hkept.moves (moves_takeInbox s i))
  | publish i => exact .inl (hkept.of_held rfl)
  | udp src dgram now admitted => exact .inl (hkept.of_held rfl)
  | tick now => exact .inl (hkept.of_held rfl)
  | stats now => exact .inl (hkept.of_held rfl)

theorem Wired.step_ends (hw : s.Wired) {x : Held} (hx : x ∈ s.held) (hlive : x.conn.Live) (a : Action) :
    (s.step P a).LiveLeg x.conn.key ∨ Ends s x a := by
  unfold Rendezvous.step
  split
  · exact .inl (LiveLeg.of_mem hx hlive)
  · rename_i hready
    exact hw.act_ends hx hlive a (idle_of_ready hready)

/-- Two legs that are each other's partners end in one action for one reason
only. -/
theorem Ends.both {x y : Held} {a : Action} (hx : x ∈ s.held) (hy : y ∈ s.held) (hxlive : x.conn.Live)
    (hylive : y.conn.Live) (hne : x.conn.key ≠ y.conn.key) (hxy : y.conn.key = x.conn.partner)
    (hyx : x.conn.key = y.conn.partner) (h : Ends s x a) (h' : Ends s y a) : Refused s x a := by
  have hnot : ∀ {z z' : Held}, z' ∈ s.held → z'.conn.Live → z'.conn.key = z.conn.partner →
      ¬ ∀ w ∈ s.held, w.conn.key = z.conn.partner → w.conn.dead = true := by
    intro z z' hz hlive hkey hgone
    cases hlive.alive.symm.trans (hgone z' hz hkey)
  cases h with
  | spent refused => exact refused
  | served gone => exact absurd gone (hnot hy hylive hxy)
  | failed own =>
      cases h' with
      | failed own' => exact absurd (own.symm.trans own') hne
      | spent refused => cases refused
      | served gone => exact absurd gone (hnot hx hxlive hyx)
  | idle own =>
      cases h' with
      | idle own' => exact absurd (own.symm.trans own') hne
      | spent refused => cases refused
      | served gone => exact absurd gone (hnot hx hxlive hyx)
  | left own =>
      cases h' with
      | left own' => exact absurd (own.symm.trans own') hne
      | spent refused => cases refused
      | served gone => exact absurd gone (hnot hx hxlive hyx)

/-- What becomes of the legs in an action. -/
structure Ending (s : Rendezvous) (a : Action) (s' : Rendezvous) : Prop where
  /-- A live leg is one afterwards, unless there was a reason to end it. -/
  reason : ∀ x ∈ s.held, x.conn.Live → s'.LiveLeg x.conn.key ∨ Ends s x a
  /-- The survivor of a pair is there until it has been sent all that its
  partner sent, unless its own socket fails, nothing moves either way for too
  long or the budget is spent. -/
  survivor : ∀ x ∈ s.held, x.conn.Live →
    (∀ y ∈ s.held, y.conn.key = x.conn.partner → y.conn.dead = true) → s'.LiveLeg x.conn.key ∨
      (∃ c ∈ s.all, c.key = x.conn.partner ∧ x.conn.written = joinOk ++ c.payload) ∨
      (∃ t sends, a = .flush t x.conn.key sends ∧ none ∈ sends) ∨
      (∃ t now, a = .expire t x.conn.key now ∧ Idle s x now) ∨
      Refused s x a
  /-- The legs of a pair do not both end in one action, unless the budget is
  spent. -/
  apart : ∀ x ∈ s.held, x.conn.Live → ∀ y ∈ s.held, y.conn.Live → y.conn.key = x.conn.partner →
    s'.LiveLeg x.conn.key ∨ s'.LiveLeg y.conn.key ∨ Refused s x a

/-- Legs end for a reason, in whatever order the loop and the workers act. -/
theorem legs_end_for_a_reason (cfg : RendezvousConfig) (secret : SymKey) (actions : List Action)
    (a : Action) :
    Ending (run (step P) (start cfg secret) actions) a
      (run (step P) (start cfg secret) (actions ++ [a])) := by
  have hw := wired_run (P := P) cfg secret actions
  rw [run_append]
  generalize run (step P) (start cfg secret) actions = s at hw ⊢
  refine ⟨fun x hx hlive => hw.step_ends hx hlive a, fun x hx hlive hgone => ?_,
    fun x hx hlive y hy hlive' hkey => ?_⟩
  · refine (hw.step_ends (P := P) hx hlive a).imp_right fun hends => ?_
    cases hends with
    | failed own place error => exact .inr (.inl ⟨_, _, by rw [own], error⟩)
    | idle own place late => exact .inr (.inr (.inl ⟨_, _, by rw [own], late⟩))
    | left own place mem partner live => cases live.alive.symm.trans (hgone _ mem partner)
    | spent refused => exact .inr (.inr (.inr refused))
    | served gone mem partner all => exact .inl ⟨_, mem, partner, all⟩
  · have hopp := (hw.inv.paired x hx hlive.leg).2 y hy hkey
    have hne : x.conn.key ≠ y.conn.key := by
      intro hsame
      have heq := hw.inv.distinct.eq hx hy hsame
      exact hopp.ne (congrArg (fun z : Held => z.conn.relaySide) heq.symm)
    rcases hw.step_ends (P := P) hx hlive a with hkept | hends
    · exact .inl hkept
    rcases hw.step_ends (P := P) hy hlive' a with hkept | hends'
    · exact .inr (.inl hkept)
    · exact .inr (.inr (hends.both hx hy hlive hlive' hne hkey hopp.partner.symm hends'))

end UConnect.Server.Rendezvous
