/-
  Server/Attachment.lean --- the service under the loop.

  Source: server/rendezvous.cpp and server/control_service.cpp.

  The loop opens a connection with the service when it becomes a control
  connection, passes on its messages and closes it when it is reaped.  What the
  service is told is therefore an orderly run of events (`Orderly`): nothing is
  said of a connection before it is opened or after it is closed.  In every
  state the open connections are the control connections the loop holds
  (`Attends`), and whatever the registry keeps belongs to one of them.
-/
import UConnect.Server.SpliceRuns

set_option autoImplicit false

namespace UConnect.Server

open UConnect UConnect.Foundation UConnect.Crypto UConnect.Wire

variable {P : Primitives}

/-! ## Owners and their records

The index by owner holds the owners of the records, so a connection that is
dropped has none left, and one that was never opened has none. -/

/-- Striking an owner's records leaves every owner's list right. -/
theorem View.strike_owners {v : View} {o : ConnKey} (h : ∀ o, v.OwnerInv o) {l : List DevId}
    (hl : ∀ d ∈ l, d ∈ v.owned o) (o' : ConnKey) : (v.strike o l).OwnerInv o' := by
  have hmine : ∀ d ∈ l, (v.record d).map (·.owner) = some o := fun d hd => ((h o).2 d).mp (hl d hd)
  unfold View.OwnerInv View.strike
  simp only [View.record_foldl_remove, Function.update_apply]
  by_cases ho : o' = o
  · rw [if_pos ho, ho]
    refine ⟨(h o).1.filter _, fun d => ?_⟩
    rw [List.mem_filter, (h o).2 d]
    by_cases hd : d ∈ l
    · simp [hd]
    · simp [hd]
  · rw [if_neg ho]
    refine ⟨(h o').1, fun d => ?_⟩
    rw [(h o').2 d]
    by_cases hd : d ∈ l
    · rw [hmine d hd]
      simp [hd, Ne.symm ho]
    · rw [if_neg hd]

namespace Registry

variable {r : Registry} {K : ConnKey → Prop}

/-- The list of every owner is right. -/
def Indexed (r : Registry) : Prop := ∀ o, r.view.OwnerInv o

/-- A call keeps the owners' lists, whatever device ids it makes. -/
theorem Indexed.step (h : r.Indexed) (op : Op) : (Registry.step P r op).Indexed := by
  have quiet : ∀ {r' : Registry}, r'.view = r.view → r'.Indexed := by
    intro r' hr' o
    rw [hr']
    exact h o
  cases op with
  | register msg src owner now =>
      have heff := view_registerEntry P r msg src owner now
      dsimp only at heff
      show (r.registerEntry P msg src owner now).2.Indexed
      generalize deriveDevId P r.secret msg.id src = dev at heff
      cases hrec : r.byDev.lookup dev with
      | some e =>
          simp only [hrec] at heff
          have hs : r.view.record dev = some e.stub := by simp only [view, hrec, Option.map_some]
          intro o
          rw [heff.2]
          split
          · rename_i hne
            exact View.OwnerInv.pass (n := ⟨dev, msg.id, src, owner⟩) h hs hne o
          · rename_i heq
            exact (h o).put hs (not_not.mp heq).symm
      | none =>
          simp only [hrec] at heff
          have hs : r.view.record dev = none := by simp only [view, hrec, Option.map_none]
          rcases heff with ⟨-, heff⟩ | ⟨-, heff⟩
          · exact quiet heff
          · intro o
            rw [heff]
            exact View.OwnerInv.join (s := ⟨dev, msg.id, src, owner⟩) h hs msg.id o
  | unregister dev owner =>
      show (r.unregister dev owner).2.Indexed
      rcases view_unregister r dev owner with heq | ⟨⟨e, he, ho⟩, heq⟩
      · exact quiet heq
      · intro o
        rw [heq]
        refine View.strike_owners h (fun d hd => ?_) o
        rw [List.mem_singleton.mp hd, (h owner).2 dev]
        simp only [view, he, Option.map_some, Entry.stub, ho]
  | dropOwner owner =>
      intro o
      show (r.dropOwner owner).2.view.OwnerInv o
      rw [view_dropOwner]
      exact View.strike_owners h (fun _ hd => hd) o
  | relayAlloc src peer kind owner addr now draws =>
      show (((r.relayAlloc src peer kind owner addr now draws).map (·.2)).getD r).Indexed
      cases hr : r.relayAlloc src peer kind owner addr now draws with
      | none => exact h
      | some x => exact quiet (view_relayAlloc hr)
  | refresh dev owner now => exact quiet (view_refresh r dev owner now)
  | update msg owner now => exact quiet (view_update r msg owner now)
  | lookup t max wantMeta now s => exact quiet (view_lookup r t max wantMeta now s)
  | resolve dev now => exact h
  | listTopics cursor limit now => exact quiet (view_expireFresh r now)
  | connectTarget src dst owner => exact quiet (view_connectTarget r src dst owner)
  | relayCharge id bytes now => exact quiet (view_relayCharge r id bytes now)
  | udpBind id token src now => exact quiet (view_udpBind r id token src now)
  | udpForward id src bytes now => exact quiet (view_udpForward r id src bytes now)
  | relayClose id => exact quiet (view_relayClose r id)
  | sweep now => exact quiet ((view_releaseWhere _ _).trans (view_expireFresh r now))
  | stats now => exact quiet (view_expireFresh r now)

/-- The close of a connection takes its records. -/
theorem Indexed.lookup_dropOwner (h : r.Indexed) (o : ConnKey) {dev : DevId} {e : Entry}
    (he : (r.dropOwner o).2.byDev.lookup dev = some e) :
    r.byDev.lookup dev = some e ∧ e.owner ≠ o := by
  unfold dropOwner at he
  dsimp only at he
  rw [byDev_releaseWhere, lookup_foldl_eraseEntry] at he
  split at he
  · cases he
  · rename_i hnot
    refine ⟨he, fun howner => hnot (((h o).2 dev).mpr ?_)⟩
    change r.byDev.lookup dev = some e at he
    simp only [view, he, Option.map_some, Entry.stub, howner]

/-- What is left after the close of a connection belongs to others. -/
theorem OwnedBy.dropped (h : r.OwnedBy K) (hl : r.Indexed) (o : ConnKey) :
    (r.dropOwner o).2.OwnedBy fun k => K k ∧ k ≠ o where
  records := by
    intro dev e he
    obtain ⟨hbefore, hother⟩ := hl.lookup_dropOwner o he
    exact ⟨h.records dev e hbefore, hother⟩
  bindings := by
    intro id b hb side
    rw [relays_dropOwner] at hb
    obtain ⟨hbefore, hothers⟩ := Option.filter_eq_some_iff.mp hb
    have hboth : ∀ side : Fin 2, b.owner side ≠ o :=
      Fin.forall_fin_two.mpr (by simpa using hothers)
    exact ⟨h.bindings id b hbefore side, hboth side⟩

end Registry

namespace ControlService

variable {s : ControlService} {K : ConnKey → Prop} {events : List Event}

/-- Every event keeps the index by owner in step with the records. -/
theorem indexed_step (h : s.registry.Indexed) (e : Event) : (step P s e).registry.Indexed := by
  rw [step_registry]
  exact run_invariant (fun _ op hr => hr.step op) h _

theorem indexed_create (cfg : RegistryConfig) (secret : SymKey) (maxUdpSources : Nat) :
    (create cfg secret maxUdpSources).registry.Indexed := by
  intro o
  refine ⟨List.nodup_nil, fun dev => ?_⟩
  simp [create, Registry.view, Registry.owned]

/-- A closed connection is forgotten with all it owned. -/
theorem Knows.closed (h : s.Knows K) (hl : s.registry.Indexed) (key : ConnKey) :
    (s.onClose key).Knows fun k => K k ∧ k ≠ key where
  conns := by
    intro k conn hconn
    change (s.conns.erase key).lookup k = some conn at hconn
    by_cases hk : k = key
    · rw [hk, AList.lookup_erase] at hconn
      cases hconn
    · rw [AList.lookup_erase_ne hk] at hconn
      exact ⟨h.conns k conn hconn, hk⟩
  owned := h.owned.dropped hl key

/-! ## Orderly runs

What the service is told of one connection: that it opens, then what it says,
then that it is closed. -/

/-- The connection an event is about. -/
def Event.about : Event → Option ConnKey
  | .opened key _ => some key
  | .closed key => some key
  | .message key _ _ _ _ => some key
  | .udp _ _ _ _ => none
  | .tick _ => none
  | .charge _ _ _ => none
  | .stats _ => none

/-- The message of an event, if it is one. -/
def Event.said : Event → List (ConnKey × Bytes)
  | .opened _ _ => []
  | .closed _ => []
  | .message key msg _ _ _ => [(key, msg)]
  | .udp _ _ _ _ => []
  | .tick _ => []
  | .charge _ _ _ => []
  | .stats _ => []

/-- The connection has been opened, from this address, and not closed. -/
def Opened (events : List Event) (key : ConnKey) (peer : Address) : Prop :=
  .opened key peer ∈ events ∧ .closed key ∉ events

/-- The event may come after these: a connection is opened once, before all else
that is said of it, and heard and closed while it is open. -/
def Follows (events : List Event) : Event → Prop
  | .opened key _ => ∀ e ∈ events, e.about ≠ some key
  | .closed key => ∃ peer, Opened events key peer
  | .message key _ _ _ _ => ∃ peer, Opened events key peer
  | _ => True

/-- Every event follows those before it. -/
def Orderly (events : List Event) : Prop :=
  ∀ before e after, events = before ++ e :: after → Follows before e

theorem Orderly.nil : Orderly [] := by
  intro before e after heq
  exact absurd heq.symm (List.append_ne_nil_of_right_ne_nil _ (List.cons_ne_nil _ _))

/-- One more event that follows what was said before. -/
theorem Orderly.snoc (h : Orderly events) {e : Event} (he : Follows events e) :
    Orderly (events ++ [e]) := by
  intro before e' after heq
  rcases List.eq_nil_or_concat' after with rfl | ⟨after, last, rfl⟩
  · obtain ⟨rfl, hlast⟩ := List.append_inj' heq rfl
    cases hlast
    exact he
  · rw [← List.cons_append, ← List.append_assoc] at heq
    obtain ⟨hevents, -⟩ := List.append_inj' heq rfl
    exact h before e' after hevents

/-- The connections of the service change by `on_open` and `on_close` only. -/
theorem conns_step (s : ControlService) {e : Event} (hopened : ∀ key peer, e ≠ .opened key peer)
    (hclosed : ∀ key, e ≠ .closed key) : (step P s e).conns = s.conns := by
  cases e with
  | opened key peer => exact absurd rfl (hopened key peer)
  | closed key => exact absurd rfl (hclosed key)
  | message key msg now admitted draws =>
      simp only [step]
      cases hm : s.onMessage P key msg now admitted draws with
      | none => rfl
      | some x => exact conns_onMessage hm
  | udp src dgram now admitted => exact conns_onUdp s src dgram now admitted
  | tick now => rfl
  | charge id bytes now => rfl
  | stats now => rfl

end ControlService

namespace Rendezvous

open ControlService (Event Follows Orderly)

variable {s s' : Rendezvous} {p : Place} {c : Conn} {key : ConnKey} {peer : Address}

/-! ## The control connections

The loop's connections in control mode are the ones open at the service.  Most
actions leave both alone, and `Attached` is what they keep. -/

/-- The loop holds the control connection, from this address. -/
def Attends (s : Rendezvous) (key : ConnKey) (peer : Address) : Prop :=
  ∃ c, ⟨.loop, c⟩ ∈ s.held ∧ c.key = key ∧ c.peer = peer ∧ c.mode = .control

/-- The same control connections: none is opened, and what was closed stays
closed. -/
structure Attached (s s' : Rendezvous) : Prop where
  attends : ∀ key peer, s'.Attends key peer ↔ s.Attends key peer
  closed : s.closed ⊆ s'.closed
  opened : ∀ key msg, s'.doing = .opened key msg → s.doing = .opened key msg

theorem Attached.refl (s : Rendezvous) : Attached s s :=
  ⟨fun _ _ => Iff.rfl, List.Subset.refl _, fun _ _ h => h⟩

theorem Attached.trans {s'' : Rendezvous} (h : Attached s s') (h' : Attached s' s'') :
    Attached s s'' :=
  ⟨fun key peer => (h'.attends key peer).trans (h.attends key peer),
    List.Subset.trans h.closed h'.closed, fun key msg hd => h.opened key msg (h'.opened key msg hd)⟩

/-- Attending is a matter of tags, so a change that keeps all tags keeps it. -/
theorem attends_iff_tag : s.Attends key peer ↔
    (Place.loop, key, peer, Mode.control) ∈ s.held.map Held.tag := by
  rw [List.mem_map]
  constructor
  · rintro ⟨c, hc, rfl, rfl, hmode⟩
    exact ⟨⟨.loop, c⟩, hc, by rw [Held.tag, hmode]⟩
  · rintro ⟨⟨q, c⟩, hc, htag⟩
    simp only [Held.tag, Prod.mk.injEq] at htag
    obtain ⟨rfl, hkey, hpeer, hmode⟩ := htag
    exact ⟨c, hc, hkey, hpeer, hmode⟩

theorem Attached.of_tags (htags : s'.held.map Held.tag = s.held.map Held.tag)
    (hclosed : s'.closed = s.closed) (hdoing : s'.doing = s.doing) : Attached s s' := by
  refine ⟨fun key peer => ?_, hclosed ▸ List.Subset.refl _, fun _ _ hd => hdoing ▸ hd⟩
  rw [attends_iff_tag, attends_iff_tag, htags]

theorem Attached.of_held (hheld : s'.held = s.held) (hclosed : s'.closed = s.closed)
    (hdoing : s'.doing = s.doing) : Attached s s' := .of_tags (by rw [hheld]) hclosed hdoing

/-- The loop goes on to something that opens no connection. -/
theorem Attached.go_on {d : Doing} (h : Attached s s') (hd : ∀ key msg, d ≠ .opened key msg) :
    Attached s { s' with doing := d } :=
  ⟨h.attends, h.closed, fun key msg heq => absurd heq (hd key msg)⟩

theorem Calms.attached (h : Calms s s') : Attached s s' := .of_tags h.tags h.closed h.doing

/-- A connection that is no control connection is written, and does not become
one. -/
theorem attached_modify {f : Conn → Conn}
    (hbefore : ∀ x ∈ s.held, x.place = p → x.conn.key = key → x.conn.mode ≠ .control)
    (hafter : ∀ d, (f d).mode ≠ .control) : Attached s (s.modify p key f) := by
  refine ⟨fun k a => ⟨?_, ?_⟩, List.Subset.refl _, fun _ _ h => h⟩
  · rintro ⟨d, hd, hkey, hpeer, hmode⟩
    obtain ⟨x, hx, heq⟩ := mem_modify.mp hd
    split at heq
    · rw [Held.mk.injEq] at heq
      exact absurd (heq.2 ▸ hmode) (hafter x.conn)
    · exact ⟨d, heq ▸ hx, hkey, hpeer, hmode⟩
  · rintro ⟨d, hd, hkey, hpeer, hmode⟩
    refine ⟨d, mem_modify.mpr ⟨_, hd, if_neg fun hat => ?_⟩, hkey, hpeer, hmode⟩
    exact hbefore _ hd hat.1 hat.2 hmode

/-- Only legs move. -/
theorem Moves.attached (h : Moves s s') (hi : s.Inv) (hi' : s'.Inv) : Attached s s' := by
  have hloop : ∀ {t : Rendezvous}, t.Inv → ∀ x ∈ t.held, x.conn.mode = .control → x.place = .loop := by
    intro t ht x hx hmode
    by_contra hplace
    cases hmode.symm.trans (ht.moved x hx hplace)
  obtain ⟨g, hg, hsame⟩ := h.edits.held
  refine ⟨fun k a => ⟨?_, ?_⟩, h.edits.closed ▸ List.Subset.refl _,
    fun _ _ hd => h.doing ▸ hd⟩
  · rintro ⟨d, hd, hkey, hpeer, hmode⟩
    obtain ⟨x, hx, hxd⟩ := mem_map_held hg hd
    have hconn : x.conn = d := by rw [hsame x hx, hxd]
    have hplace := hloop hi x hx (hconn ▸ hmode)
    obtain ⟨q, e⟩ := x
    obtain rfl : q = .loop := hplace
    obtain rfl : e = d := hconn
    exact ⟨e, hx, hkey, hpeer, hmode⟩
  · rintro ⟨d, hd, hkey, hpeer, hmode⟩
    have hmem : g ⟨.loop, d⟩ ∈ s'.held := hg ▸ List.mem_map_of_mem hd
    have hconn : d = (g ⟨.loop, d⟩).conn := hsame _ hd
    have hplace := hloop hi' _ hmem (hconn ▸ hmode)
    generalize g ⟨.loop, d⟩ = y at hmem hconn hplace
    obtain ⟨q, e⟩ := y
    obtain rfl : q = .loop := hplace
    obtain rfl : d = e := hconn
    exact ⟨d, hmem, hkey, hpeer, hmode⟩

/-! ## One action

What the service is told by one action of the runtime: at most one event, but
for a frame whose replies cannot be delivered. -/

/-- The message a frame of the connection is to the service, if it is one. -/
def frameGiven (s : Rendezvous) (key : ConnKey) : List (ConnKey × Bytes) :=
  match s.find .loop key with
  | none => []
  | some c =>
      if c.dead || c.mode ≠ .control then []
      else (c.reader.next.1.map fun msg => (key, msg)).toList

/-- The message the loop has kept for the service. -/
def Doing.kept : Doing → List (ConnKey × Bytes)
  | .opened key msg => [(key, msg)]
  | .nothing => []
  | .passing _ _ _ _ => []

/-- The messages an action gives the service, when its thread is ready for it. -/
def actGiven (s : Rendezvous) : Action → List (ConnKey × Bytes)
  | .frame key _ _ => s.frameGiven key
  | .goOn _ _ => s.doing.kept
  | _ => []

/-- The messages an action gives the service. -/
def given (s : Rendezvous) (a : Action) : List (ConnKey × Bytes) :=
  if a.fresh && !s.doing.isNothing then [] else s.actGiven a

/-- What an action tells the service, which messages are in it, and what becomes
of the control connections. -/
inductive Turn (P : Primitives) (s s' : Rendezvous) : List (ConnKey × Bytes) → Prop where
  | silent (hservice : s'.service = s.service) (hsame : Attached s s') : Turn P s s' []
  /-- A message is one of a control connection, and no connection comes or goes. -/
  | tells (e : Event) (hservice : s'.service = ControlService.step P s.service e)
      (hsame : Attached s s') (hother : ∀ key peer, e ≠ .opened key peer)
      (hstays : ∀ key, e ≠ .closed key)
      (hfrom : ∀ key, e.about = some key → ∃ peer, s.Attends key peer) : Turn P s s' e.said
  | opens (c : Conn) (hc : ⟨.loop, c⟩ ∈ s.held) (hnew : c.mode = .new)
      (hservice : s'.service = s.service.onOpen c.key c.peer)
      (hdoing : ∀ key msg, s'.doing = .opened key msg → key = c.key) (hclosed : s.closed ⊆ s'.closed)
      (hmore : ∀ key peer, s'.Attends key peer ↔
        s.Attends key peer ∨ key = c.key ∧ peer = c.peer) : Turn P s s' []
  | closes (c : Conn) (hc : ⟨.loop, c⟩ ∈ s.held) (hcontrol : c.mode = .control)
      (hservice : s'.service = s.service.onClose c.key)
      (hdoing : ∀ key msg, s'.doing ≠ .opened key msg) (hclosed : c :: s.closed ⊆ s'.closed)
      (hless : ∀ key peer, s'.Attends key peer ↔ s.Attends key peer ∧ key ≠ c.key) : Turn P s s' []

/-- An event that is about no connection. -/
theorem Turn.plain {e : Event} (habout : e.about = none)
    (hservice : s'.service = ControlService.step P s.service e) (hsame : Attached s s') :
    Turn P s s' [] := by
  have hsaid : e.said = [] := by
    cases e with
    | message key msg now admitted draws => cases habout
    | _ => rfl
  rw [← hsaid]
  refine .tells e hservice hsame ?_ ?_ ?_
  · rintro key peer rfl
    cases habout
  · rintro key rfl
    cases habout
  · intro key hkey
    cases habout.symm.trans hkey

/-- A calm change the service has no part in tells it nothing. -/
theorem Turn.calms (h : Calms s s') (hservice : s'.service = s.service) : Turn P s s' [] :=
  .silent hservice h.attached

@[simp] theorem service_modify (s : Rendezvous) (p : Place) (key : ConnKey) (f : Conn → Conn) :
    (s.modify p key f).service = s.service := rfl

@[simp] theorem service_killAt (s : Rendezvous) (p : Place) (key : ConnKey) :
    (s.killAt p key).service = s.service := rfl

/-- A frame of a control connection is one event of the service, whatever
becomes of the replies. -/
theorem service_onControl (s : Rendezvous) (key : ConnKey) (msg : Bytes) (now : Instant)
    (v : Verdict) : (s.onControl P key msg now v).service =
      ControlService.step P s.service (.message key msg now v.admitted v.draws) := by
  unfold Rendezvous.onControl
  simp only [ControlService.step]
  cases s.service.onMessage P key msg now v.admitted v.draws with
  | none => rfl
  | some r =>
      dsimp only
      rw [Option.map_some, Option.getD_some]
      split
      · exact service_foldl_deliver r.1.out { s with service := r.2 }
      · exact service_foldl_deliver r.1.out { s with service := r.2 }

/-- A message is one event of the service. -/
theorem Turn.onControl {s₀ : Rendezvous} (hbefore : Attached s₀ s) (hservice : s.service = s₀.service)
    (hfrom : ∃ peer, s.Attends key peer) (msg : Bytes) (now : Instant) (v : Verdict) :
    Turn P s₀ (s.onControl P key msg now v) [(key, msg)] := by
  refine Turn.tells (.message key msg now v.admitted v.draws) ?_
    (hbefore.trans (calms_onControl s key msg now v).attached)
    (fun _ _ => Event.noConfusion) (fun _ => Event.noConfusion) fun k hk => ?_
  · rw [service_onControl, hservice]
  · obtain rfl := Option.some.inj hk
    obtain ⟨peer, hpeer⟩ := hfrom
    exact ⟨peer, (hbefore.attends key peer).mp hpeer⟩

theorem service_drain (s : Rendezvous) (p : Place) (c : Conn) (got : Recv) :
    (s.drain p c got).service = s.service := by
  unfold drain
  cases got with
  | none =>
      dsimp only
      split <;> rfl
  | some bytes =>
      dsimp only
      split <;> rfl

/-- A leg that is read tells the service of the charge, at most. -/
theorem Turn.spliceRead (s : Rendezvous) (p : Place) (c : Conn) (got : Recv) (now : Instant) :
    Turn P s (s.spliceRead p c got now) [] := by
  have hcalms := calms_spliceRead s p c got now
  unfold Rendezvous.spliceRead at hcalms ⊢
  cases hd : s.find p c.partner with
  | none => exact .calms (calms_drain s p c got) (service_drain s p c got)
  | some d =>
      rw [hd] at hcalms
      dsimp only at hcalms ⊢
      split
      · exact .calms (calms_drain s p c got) (service_drain s p c got)
      rename_i hlive
      rw [if_neg hlive] at hcalms
      split
      · exact .calms (Calms.refl s) rfl
      rename_i hroom
      rw [if_neg hroom] at hcalms
      cases got with
      | none => exact .calms (Calms.killAt s p c.key) rfl
      | some bytes =>
          dsimp only at hcalms ⊢
          split
          · exact .calms (Calms.refl s) rfl
          rename_i hsome
          rw [if_neg hsome] at hcalms
          refine .plain (e := .charge c.relayId
            (bytes.take (min (s.cfg.spliceBuffer - d.out.length) kReadChunk)).length now) rfl ?_
            hcalms.attached
          split <;> rfl

theorem Turn.readChunk (s : Rendezvous) (c : Conn) (got : Recv) (now : Instant) :
    Turn P s (s.readChunk c got now) [] := by
  refine .calms (calms_readChunk s c got now) ?_
  unfold Rendezvous.readChunk
  cases got with
  | none => rfl
  | some bytes =>
      dsimp only
      split
      · rfl
      · split <;> rfl

theorem Turn.readEarly (s : Rendezvous) (c : Conn) (got : Recv) : Turn P s (s.readEarly c got) [] := by
  refine .calms (calms_readEarly s c got) ?_
  unfold Rendezvous.readEarly
  cases got with
  | none => rfl
  | some bytes =>
      dsimp only
      split <;> rfl

/-- A read by the loop tells the service nothing: bytes are not messages yet. -/
theorem Turn.readFrom (s : Rendezvous) (key : ConnKey) (got : Recv) (now : Instant) :
    Turn P s (s.readFrom key got now) [] := by
  unfold Rendezvous.readFrom
  cases s.find .loop key with
  | none => exact .calms (Calms.refl s) rfl
  | some c =>
      dsimp only
      split
      · exact .calms (Calms.refl s) rfl
      cases c.mode with
      | splice => exact .spliceRead s .loop c got now
      | relayWaiting => exact .readEarly s c got
      | new => exact .readChunk s c got now
      | control => exact .readChunk s c got now

/-- Nor does a read by a worker, which holds legs only. -/
theorem Turn.workerRead (s : Rendezvous) (i : Nat) (key : ConnKey) (got : Recv) (now : Instant) :
    Turn P s (s.workerRead i key got now) [] := by
  unfold Rendezvous.workerRead
  cases s.find (.worker i) key with
  | none => exact .calms (Calms.refl s) rfl
  | some c =>
      dsimp only
      split
      · exact .calms (Calms.refl s) rfl
      · exact .spliceRead s (.worker i) c got now

theorem service_flush (p : Place) (key : ConnKey) (sends : List Send) (s : Rendezvous) :
    (flush p key sends s).service = s.service := by
  induction sends generalizing s with
  | nil => rfl
  | cons sent sends ih =>
      unfold flush
      cases s.find p key with
      | none => rfl
      | some c =>
          dsimp only
          split
          · rfl
          cases sent with
          | none => rfl
          | some n =>
              dsimp only
              split
              · rfl
              · exact ih _

/-- A deadline kills, and the service hears of it when the connection is closed. -/
theorem Turn.expire (s : Rendezvous) (t : Thread) (key : ConnKey) (now : Instant) :
    Turn P s (s.expire t key now) [] := by
  refine .calms (calms_expire s t key now) ?_
  unfold Rendezvous.expire
  cases s.find t.place key with
  | none => rfl
  | some c =>
      dsimp only
      split <;> rfl

/-- The survivor of a dead leg is no control connection. -/
theorem Turn.follow (s : Rendezvous) (t : Thread) (key : ConnKey) : Turn P s (s.follow t key) [] := by
  refine .calms (calms_follow s t key) ?_
  unfold Rendezvous.follow
  cases s.find t.place key with
  | none => rfl
  | some c =>
      dsimp only
      split
      · rfl
      cases s.find t.place c.partner with
      | none => rfl
      | some q =>
          dsimp only
          split <;> rfl

/-- An accepted connection has said nothing, so the service does not know it
yet. -/
theorem Turn.accept (s : Rendezvous) (peer : Option Address) (now : Instant) :
    Turn P s (s.accept peer now) [] := by
  unfold Rendezvous.accept
  cases peer with
  | none => exact .calms (Calms.refl s) rfl
  | some peer =>
      dsimp only
      split
      · split
        · exact .silent rfl (.of_held rfl rfl rfl)
        · exact .calms (Calms.refl s) rfl
      · -- the new connection is none of control yet
        refine .silent rfl ⟨fun k a => ⟨?_, ?_⟩, List.Subset.refl _, fun _ _ h => h⟩
        · rintro ⟨d, hd, hkey, hpeer, hmode⟩
          rcases List.mem_cons.mp hd with hfirst | hd
          · rw [Held.mk.injEq] at hfirst
            rw [hfirst.2] at hmode
            cases hmode
          · exact ⟨d, hd, hkey, hpeer, hmode⟩
        · rintro ⟨d, hd, hfacts⟩
          exact ⟨d, List.mem_cons_of_mem _ hd, hfacts⟩

/-! ## Frames

The first frame decides what a connection is; only then may the service hear of
it. -/

/-- With its first frame a connection joins those that are attended, and no
other does or leaves. -/
theorem attends_openControl (hd : s.Distinct) (hc : ⟨.loop, c⟩ ∈ s.held) (msg : Bytes)
    (k : ConnKey) (a : Address) :
    (s.openControl c msg).Attends k a ↔ s.Attends k a ∨ k = c.key ∧ a = c.peer := by
  have hopened := mem_modify_self (f := fun d => { d with mode := .control }) hc
  constructor
  · rintro ⟨d, hmem, hkey, hpeer, hmode⟩
    rcases mem_modify_cases (f := fun d => { d with mode := .control }) hd hc hmem with heq | ⟨hold, -⟩
    · rw [Held.mk.injEq] at heq
      rw [heq.2] at hkey hpeer
      exact .inr ⟨hkey.symm, hpeer.symm⟩
    · exact .inl ⟨d, hold, hkey, hpeer, hmode⟩
  · rintro (⟨d, hmem, hkey, hpeer, hmode⟩ | ⟨rfl, rfl⟩)
    · by_cases hsame : d.key = c.key
      · obtain ⟨-, rfl⟩ := (Held.mk.injEq _ _ _ _).mp (hd.eq hmem hc hsame)
        exact ⟨_, hopened, hkey, hpeer, rfl⟩
      · have hkept := mem_modify_of_ne (p := .loop) (f := fun d => { d with mode := .control }) hmem hsame
        exact ⟨d, hkept, hkey, hpeer, hmode⟩
    · exact ⟨_, hopened, rfl, rfl, rfl⟩

theorem attached_replaceEarlier (s : Rendezvous) (side : Fin 2) (id : RelayId) :
    Attached s (s.replaceEarlier side id) := by
  unfold replaceEarlier
  cases (s.waiting side).lookup id with
  | none => exact .refl s
  | some old => exact (Calms.killAt s .loop old).attached.trans (.of_held rfl rfl rfl)

/-- What is no control connection under its key may wait. -/
theorem attached_wait (hplain : ∀ x ∈ s.held, x.conn.key = key → x.conn.mode ≠ .control)
    (side : Fin 2) (id : RelayId) : Attached s (s.wait key side id) :=
  (attached_modify (p := .loop) (f := Conn.toWaiting) (fun x hx _ => hplain x hx)
    fun _ => Mode.noConfusion).trans (.of_held rfl rfl rfl)

theorem attached_splice {other : ConnKey}
    (hplain : ∀ x ∈ s.held, x.conn.key = key → x.conn.mode ≠ .control)
    (hother : ∀ x ∈ s.held, x.conn.key = other → x.conn.mode ≠ .control) (id : RelayId) :
    Attached s (s.splice key other id) := by
  have hfirst : Attached s (s.modify .loop key fun d => d.toSplice other) :=
    attached_modify (fun x hx _ => hplain x hx) fun _ => Mode.noConfusion
  have hkeeps : ∀ x ∈ (s.modify .loop key fun d => d.toSplice other).held, x.place = .loop →
      x.conn.key = other → x.conn.mode ≠ .control := by
    intro x hx _ hkey
    obtain ⟨y, hy, rfl⟩ := mem_modify.mp hx
    split
    · exact Mode.noConfusion
    · rename_i hat
      rw [if_neg hat] at hkey
      exact hother y hy hkey
  have hsecond : Attached (s.modify .loop key fun d => d.toSplice other)
      ((s.modify .loop key fun d => d.toSplice other).modify .loop other fun p => p.toSplice key) :=
    attached_modify hkeeps fun _ => Mode.noConfusion
  exact (hfirst.trans hsecond).go_on fun _ _ => Doing.noConfusion

/-- Joining a relay is beside the control connections. -/
theorem attached_pair (hi : s.Inv) (hplain : ∀ x ∈ s.held, x.conn.key = key → x.conn.mode ≠ .control)
    (side : Fin 2) (id : RelayId) : Attached s (s.pair key side id) := by
  unfold pair
  cases hname : (s.waiting (1 - side)).lookup id with
  | none => exact attached_wait hplain side id
  | some other =>
      have hunwait : Attached s (s.unwait (1 - side) id) := .of_held rfl rfl rfl
      have hwaits : ∀ x ∈ s.held, x.conn.key = other → x.conn.mode ≠ .control := by
        intro x hx hkey hcontrol
        cases hcontrol.symm.trans (hi.named_eq hname hx hkey).2.1
      have hwait : Attached s ((s.unwait (1 - side) id).wait key side id) :=
        hunwait.trans (attached_wait (s := s.unwait (1 - side) id) hplain side id)
      dsimp only
      cases (s.unwait (1 - side) id).find .loop other with
      | none => exact hwait
      | some d =>
          dsimp only
          split
          · exact hwait
          · exact hunwait.trans (attached_splice (s := s.unwait (1 - side) id) hplain hwaits id)

theorem service_pair (s : Rendezvous) (key : ConnKey) (side : Fin 2) (id : RelayId) :
    (s.pair key side id).service = s.service := by
  unfold pair
  cases (s.waiting (1 - side)).lookup id with
  | none => rfl
  | some other =>
      dsimp only
      cases (s.unwait (1 - side) id).find .loop other with
      | none => rfl
      | some d =>
          dsimp only
          split <;> rfl

theorem service_replaceEarlier (s : Rendezvous) (side : Fin 2) (id : RelayId) :
    (s.replaceEarlier side id).service = s.service := by
  unfold replaceEarlier
  cases (s.waiting side).lookup id with
  | none => rfl
  | some old => rfl

/-- A leg that joins is no matter of the service. -/
theorem Turn.onRelayJoin (hi : s.Inv) (hc : ⟨.loop, c⟩ ∈ s.held) (hnew : c.mode = .new)
    (msg : Bytes) : Attached s (s.onRelayJoin c msg) ∧ (s.onRelayJoin c msg).service = s.service := by
  unfold Rendezvous.onRelayJoin
  cases s.joinSide msg with
  | none => exact ⟨(Calms.killAt s _ _).attached, rfl⟩
  | some joined =>
      obtain ⟨relay, side⟩ := joined
      dsimp only
      generalize c.reader.takeRest.1 = early
      have hraw : Calms s (s.modify .loop c.key fun d => d.toRaw early msg) :=
        Calms.modify_data fun _ => ⟨rfl, rfl, id, rfl, rfl, rfl, rfl⟩
      split
      · exact ⟨(hraw.trans (Calms.killAt _ _ _)).attached, rfl⟩
      · have hmem : ⟨.loop, c.toRaw early msg⟩ ∈
            (s.modify .loop c.key fun d => d.toRaw early msg).held := mem_modify_self hc
        have hside := calms_takeSide (hi.calms hraw).distinct hmem hnew relay side
        have hmem' := mem_modify_self (f := fun d => d.takeSide relay side) hmem
        obtain ⟨hinv, -, hkept⟩ := (hi.calms (hraw.trans hside)).replaceEarlier side relay
        have hplain : ∀ x ∈ (((s.modify .loop c.key fun d => d.toRaw early msg).modify .loop c.key
            fun d => d.takeSide relay side).replaceEarlier side relay).held,
            x.conn.key = c.key → x.conn.mode ≠ .control := by
          intro x hx hkey hcontrol
          obtain rfl := hinv.distinct.eq hx (hkept _ hmem' hnew) hkey
          cases hcontrol.symm.trans hnew
        refine ⟨((hraw.trans hside).attached.trans (attached_replaceEarlier _ side relay)).trans
          (attached_pair hinv hplain side relay), ?_⟩
        rw [service_pair, service_replaceEarlier]
        rfl

/-- What taking a frame gives the service: the frame, if the connection is a
live control one. -/
theorem frameGiven_eq (hfind : s.find .loop key = some c) : s.frameGiven key =
    if c.dead || c.mode ≠ .control then []
    else (c.reader.next.1.map fun msg => (key, msg)).toList := by
  rw [frameGiven, hfind]

/-- The frame of a connection that is no control connection is none of the
service. -/
theorem frameGiven_plain (hfind : s.find .loop key = some c) (hplain : c.mode ≠ .control) :
    s.frameGiven key = [] := by
  rw [frameGiven_eq hfind, if_pos]
  simp [hplain]

/-- A connection that takes no frames gives none. -/
theorem frameGiven_deaf (hfind : s.find .loop key = some c) (hdeaf : (c.dead || c.raw) = true) :
    s.frameGiven key = [] := by
  rw [frameGiven_eq hfind, if_pos]
  rcases Bool.or_eq_true_iff.mp hdeaf with hdead | hraw
  · rw [hdead, Bool.true_or]
  · have hplain : c.mode ≠ .control := by
      intro hmode
      rw [Conn.raw, hmode] at hraw
      cases hraw
    simp [hplain]

theorem frameGiven_control (hfind : s.find .loop key = some c) (hlive : c.dead = false)
    (hmode : c.mode = .control) :
    s.frameGiven key = (c.reader.next.1.map fun msg => (key, msg)).toList := by
  rw [frameGiven_eq hfind, if_neg]
  simp [hlive, hmode]

/-- A turn of the frame loop tells the service of its frame and of nothing else. -/
theorem Turn.takeFrame (hi : s.Inv) (key : ConnKey) (now : Instant)
    (v : Verdict) : Turn P s (s.takeFrame P key now v) (s.frameGiven key) := by
  unfold Rendezvous.takeFrame
  cases hfind : s.find .loop key with
  | none =>
      have hgiven : s.frameGiven key = [] := by rw [frameGiven, hfind]
      rw [hgiven]
      exact .calms (Calms.refl s) rfl
  | some c =>
      obtain ⟨hc, rfl⟩ := mem_of_find hfind
      dsimp only
      split
      · rename_i hdeaf
        rw [frameGiven_deaf hfind hdeaf]
        exact .calms (Calms.refl s) rfl
      · rename_i hready
        have hlive : c.dead = false := by
          by_contra hdead
          exact hready (by simp [hdead])
        have hreader : Calms s (s.modify .loop c.key fun d => { d with reader := c.reader.next.2 }) :=
          Calms.modify_data fun _ => ⟨rfl, rfl, id, rfl, rfl, rfl, rfl⟩
        have hmem := mem_modify_self (f := fun d => { d with reader := c.reader.next.2 }) hc
        cases hnext : c.reader.next.1 with
        | none =>
            have hgiven : s.frameGiven c.key = [] := by
              rw [frameGiven_eq hfind, hnext]
              split <;> rfl
            rw [hgiven]
            dsimp only
            split
            · exact .calms (hreader.trans (Calms.killAt _ _ _)) rfl
            · exact .calms hreader rfl
        | some msg =>
            dsimp only
            unfold onFrame
            cases hmode : c.mode with
            | new =>
                rw [frameGiven_plain hfind (by rw [hmode]; exact Mode.noConfusion)]
                dsimp only
                split
                · obtain ⟨hattached, hservice⟩ := Turn.onRelayJoin (hi.calms hreader) hmem hmode msg
                  exact .silent hservice (hreader.attached.trans hattached)
                · refine .opens c hc hmode rfl ?_ (List.Subset.refl _) fun k a => ?_
                  · intro k m hd
                    cases hd
                    rfl
                  · refine (attends_openControl (hi.calms hreader).distinct hmem msg k a).trans ?_
                    rw [hreader.attached.attends]
            | control =>
                have hfrom : ∃ peer, Attends (s.modify .loop c.key fun d =>
                    { d with reader := c.reader.next.2 }) c.key peer :=
                  ⟨c.peer, _, hmem, rfl, rfl, hmode⟩
                rw [frameGiven_control hfind hlive hmode, hnext]
                exact .onControl hreader.attached rfl hfrom msg now v
            | relayWaiting =>
                rw [frameGiven_plain hfind (by rw [hmode]; exact Mode.noConfusion)]
                exact .calms hreader rfl
            | splice =>
                rw [frameGiven_plain hfind (by rw [hmode]; exact Mode.noConfusion)]
                exact .calms hreader rfl

/-! ## What is left to do

A turn that makes two calls under the lock, seen as two turns. -/

theorem Attached.passed (h : Attached s s') (src dst : ConnKey) (id : RelayId) (again : Bool) :
    Attached s (s'.passed src dst id again) ∧ (s'.passed src dst id again).service = s'.service := by
  unfold Rendezvous.passed
  split
  · exact ⟨h.go_on fun _ _ => Doing.noConfusion, rfl⟩
  · exact ⟨⟨h.attends, h.closed, fun _ _ hd => Doing.noConfusion hd⟩, rfl⟩

theorem Turn.passEarly (s : Rendezvous) (src dst : ConnKey) (id : RelayId) (again : Bool)
    (now : Instant) : Turn P s (s.passEarly src dst id again now) [] := by
  unfold Rendezvous.passEarly
  cases s.find .loop src with
  | none => exact .silent rfl ((Attached.refl s).go_on fun _ _ => Doing.noConfusion)
  | some c =>
      have htaken : Calms s (s.modify .loop src fun d => { d with relayEarly := [] }) :=
        Calms.modify_data fun _ => ⟨rfl, rfl, fun h => h, rfl, rfl, rfl, rfl⟩
      have hcharged := htaken.trans (Calms.charge _ id c.relayEarly.length now)
      dsimp only
      split
      · obtain ⟨hattached, hservice⟩ := htaken.attached.passed src dst id again
        exact .silent hservice hattached
      · split
        · have hpassed := hcharged.trans (Calms.modify_data (p := .loop) (k := dst)
            (f := fun d => { d with out := d.out ++ c.relayEarly })
            fun _ => ⟨rfl, rfl, fun h => h, rfl, rfl, rfl, rfl⟩)
          obtain ⟨hattached, hservice⟩ := hpassed.attached.passed src dst id again
          exact .plain (e := .charge id c.relayEarly.length now) rfl hservice hattached
        · have hkilled := (hcharged.trans (Calms.killAt _ .loop src)).trans (Calms.killAt _ .loop dst)
          exact .plain (e := .charge id c.relayEarly.length now) rfl rfl
            (hkilled.attached.go_on fun _ _ => Doing.noConfusion)

/-- What was left to do is done: the first frame of a connection that was just
opened is told. -/
theorem Turn.goOn (hopened : ∀ key msg, s.doing = .opened key msg → ∃ peer, s.Attends key peer)
    (now : Instant) (v : Verdict) : Turn P s (s.goOn P now v) s.doing.kept := by
  unfold Rendezvous.goOn
  cases hd : s.doing with
  | nothing => exact .calms (Calms.refl s) rfl
  | opened key msg =>
      have hnothing : Attached s { s with doing := .nothing } :=
        (Attached.refl s).go_on fun _ _ => Doing.noConfusion
      exact .onControl hnothing rfl (hopened key msg hd) msg now v
  | passing src dst id again => exact .passEarly s src dst id again now

/-! ## Closing

A control connection is closed with the service in the turn in which it leaves
the map. -/

/-- A connection that leaves its map takes only itself along. -/
theorem attends_erase (hd : s.Distinct) (hc : ⟨p, c⟩ ∈ s.held)
    (hheld : s'.held = s.held.eraseP fun x => x.place = p && x.conn.key = c.key) (k : ConnKey)
    (a : Address) : s'.Attends k a ↔ s.Attends k a ∧ k ≠ c.key := by
  constructor
  · rintro ⟨d, hmem, rfl, hpeer, hmode⟩
    rw [hheld] at hmem
    exact ⟨⟨d, List.mem_of_mem_eraseP hmem, rfl, hpeer, hmode⟩, hd.eraseP_ne hc hmem⟩
  · rintro ⟨⟨d, hmem, rfl, hpeer, hmode⟩, hne⟩
    refine ⟨d, hheld ▸ (List.mem_eraseP_of_neg fun htest => hne ?_).mpr hmem, rfl, hpeer, hmode⟩
    exact of_decide_eq_true (Bool.and_eq_true_iff.mp htest).2

/-- Closing tells the service that a control connection has gone, and nothing of
any other. -/
theorem Turn.close (hi : s.Inv) (t : Thread) (key : ConnKey)
    (hidle : t = .loop → s.doing = .nothing) : Turn P s (s.close t key) [] := by
  unfold Rendezvous.close
  cases hfind : s.find t.place key with
  | none => exact .calms (Calms.refl s) rfl
  | some c =>
      obtain ⟨hc, rfl⟩ := mem_of_find hfind
      dsimp only
      split
      · exact .calms (Calms.refl s) rfl
      have hleaves : Leaves s (if t = .loop then s.forget c else s) := by
        split
        · exact leaves_forget s c
        · exact ⟨rfl, rfl, rfl, rfl, rfl⟩
      have hservice : (if t = .loop then s.forget c else s).service =
          if t = .loop ∧ c.mode = .control then s.service.onClose c.key else s.service := by
        by_cases ht : t = .loop
        · rw [if_pos ht, service_forget]
          exact if_congr ⟨fun hmode => ⟨ht, hmode⟩, And.right⟩ rfl rfl
        · rw [if_neg ht, if_neg fun hboth => ht hboth.1]
      generalize (if t = .loop then s.forget c else s) = s₁ at hleaves hservice
      obtain ⟨hthen, hsame⟩ := leaves_release s₁ c.ip
      have hheld : ((s₁.release c.ip).held.eraseP fun x => x.place = t.place && x.conn.key = c.key) =
          s.held.eraseP fun x => x.place = t.place && x.conn.key = c.key :=
        congrArg (List.eraseP _) (hthen.held.trans hleaves.held)
      have hclosed : (s₁.release c.ip).closed = s.closed := hthen.closed.trans hleaves.closed
      have hdoing : (s₁.release c.ip).doing = s.doing := hthen.doing.trans hleaves.doing
      rw [← hsame] at hservice
      by_cases hcontrol : t = .loop ∧ c.mode = .control
      · obtain ⟨rfl, hmode⟩ := hcontrol
        rw [if_pos ⟨rfl, hmode⟩] at hservice
        refine .closes c hc hmode hservice (fun k msg hd => ?_) (hclosed ▸ List.Subset.refl _)
          (attends_erase hi.distinct hc hheld)
        cases (hidle rfl).symm.trans (hdoing.symm.trans hd)
      · rw [if_neg hcontrol] at hservice
        refine .silent hservice ⟨fun k a => ?_, ?_, fun k msg hd => hdoing ▸ hd⟩
        · rw [attends_erase hi.distinct hc hheld]
          refine and_iff_left_of_imp ?_
          rintro ⟨d, hd, rfl, -, hmode⟩ hkey
          obtain ⟨hplace, rfl⟩ := (Held.mk.injEq _ _ _ _).mp (hi.distinct.eq hd hc hkey)
          refine hcontrol ⟨?_, hmode⟩
          cases t with
          | loop => rfl
          | worker i => exact Place.noConfusion hplace
        · exact fun d hd => List.mem_cons_of_mem _ (hclosed ▸ hd)

/-! ## Runs

The service's own run is what the turns have told it, and it is orderly. -/

theorem Turn.act (hi : s.Inv) (hopened : ∀ key msg, s.doing = .opened key msg →
      ∃ peer, s.Attends key peer) (a : Action) (hidle : a.fresh = true → s.doing = .nothing) :
    Turn P s (s.act P a) (s.actGiven a) := by
  cases a with
  | accept peer now => exact .accept s peer now
  | read t key got now =>
      cases t with
      | loop => exact .readFrom s key got now
      | worker i => exact .workerRead s i key got now
  | frame key now v => exact .takeFrame hi key now v
  | goOn now v => exact .goOn hopened now v
  | flush t key sends =>
      exact .calms (calms_flush t.place key sends s) (service_flush t.place key sends s)
  | expire t key now => exact .expire s t key now
  | follow t key => exact .follow s t key
  | close t key => exact .close hi t key fun hloop => hidle (by rw [hloop]; rfl)
  | handOff =>
      have hmoves := moves_handOff s
      exact .silent hmoves.service (hmoves.attached hi hi.handOff)
  | takeInbox i =>
      have hmoves := moves_takeInbox s i
      exact .silent hmoves.service (hmoves.attached hi (hi.takeInbox i))
  | publish i => exact .silent rfl (.of_held rfl rfl rfl)
  | udp src dgram now admitted =>
      exact .plain (e := .udp src dgram now admitted) rfl rfl (.of_held rfl rfl rfl)
  | tick now => exact .plain (e := .tick now) rfl rfl (.of_held rfl rfl rfl)
  | stats now => exact .plain (e := .stats now) rfl rfl (.of_held rfl rfl rfl)

/-- One action of any thread. -/
theorem Turn.step (hi : s.Inv) (hopened : ∀ key msg, s.doing = .opened key msg →
      ∃ peer, s.Attends key peer) (a : Action) : Turn P s (s.step P a) (s.given a) := by
  unfold Rendezvous.step given
  split
  · exact .silent rfl (.refl s)
  · rename_i hready
    exact .act hi hopened a (idle_of_ready hready)

/-- The service of `s` is what it is after these events, and they and the maps
of `s` say the same of every connection. -/
structure Serves (P : Primitives) (service₀ : ControlService) (s : Rendezvous)
    (events : List Event) : Prop where
  /-- The service has been told these events, and nothing else happened to it. -/
  service : s.service = run (ControlService.step P) service₀ events
  orderly : Orderly events
  /-- The open connections are the control connections of the loop. -/
  attends : ∀ key peer, ControlService.Opened events key peer ↔ s.Attends key peer
  /-- They are those the service knows. -/
  conns : ∀ key conn, s.service.conns.lookup key = some conn ↔ s.Attends key conn.peer
  /-- Every record and both sides of every relay belong to one of them. -/
  owned : s.service.registry.OwnedBy fun key => ∃ peer, s.Attends key peer

/-- What is kept besides: the owners' lists, and that events are about
connections that are attended or closed. -/
structure Serving (P : Primitives) (service₀ : ControlService) (s : Rendezvous)
    (events : List Event) : Prop extends Serves P service₀ s events where
  indexed : s.service.registry.Indexed
  about : ∀ e ∈ events, ∀ key, e.about = some key →
    (∃ peer, s.Attends key peer) ∨ ∃ c ∈ s.closed, c.key = key
  opened : ∀ key msg, s.doing = .opened key msg → ∃ peer, s.Attends key peer

theorem Serving.knows {service₀ : ControlService} {events : List Event}
    (h : Serving P service₀ s events) : s.service.Knows fun key => ∃ peer, s.Attends key peer :=
  ⟨fun key conn hconn => ⟨conn.peer, (h.conns key conn).mp hconn⟩, h.owned⟩

section Serving

variable {service₀ : ControlService} {events : List Event}

/-- A turn that tells nothing extends no run of the service. -/
theorem Serving.silent (h : Serving P service₀ s events) (hservice : s'.service = s.service)
    (hsame : Attached s s') : Serving P service₀ s' events where
  service := hservice.trans h.service
  orderly := h.orderly
  attends := fun key peer => (h.attends key peer).trans (hsame.attends key peer).symm
  conns := by
    intro key conn
    rw [hservice, hsame.attends]
    exact h.conns key conn
  owned := by
    rw [hservice]
    exact (h.knows.mono fun key ⟨peer, hpeer⟩ => ⟨peer, (hsame.attends key peer).mpr hpeer⟩).owned
  indexed := hservice ▸ h.indexed
  about := by
    intro e he key hkey
    rcases h.about e he key hkey with ⟨peer, hpeer⟩ | ⟨d, hd, hdkey⟩
    · exact .inl ⟨peer, (hsame.attends key peer).mpr hpeer⟩
    · exact .inr ⟨d, hsame.closed hd, hdkey⟩
  opened := by
    intro key msg hd
    obtain ⟨peer, hpeer⟩ := h.opened key msg (hsame.opened key msg hd)
    exact ⟨peer, (hsame.attends key peer).mpr hpeer⟩

theorem run_snoc (service : ControlService) (e : Event) :
    run (ControlService.step P) service (events ++ [e]) =
      ControlService.step P (run (ControlService.step P) service events) e := by
  rw [run_append, run_cons, run_nil]

/-- A turn that tells one event of an attended connection extends the run by it. -/
theorem Serving.tells (h : Serving P service₀ s events) {e : Event}
    (hservice : s'.service = ControlService.step P s.service e) (hsame : Attached s s')
    (hother : ∀ key peer, e ≠ .opened key peer) (hstays : ∀ key, e ≠ .closed key)
    (hfrom : ∀ key, e.about = some key → ∃ peer, s.Attends key peer) :
    Serving P service₀ s' (events ++ [e]) where
  service := by rw [run_snoc, hservice, h.service]
  orderly := by
    refine h.orderly.snoc ?_
    cases e with
    | opened key peer => exact absurd rfl (hother key peer)
    | closed key => exact absurd rfl (hstays key)
    | message key msg now admitted draws =>
        obtain ⟨peer, hpeer⟩ := hfrom key rfl
        exact ⟨peer, (h.attends key peer).mpr hpeer⟩
    | udp src dgram now admitted => trivial
    | tick now => trivial
    | charge id bytes now => trivial
    | stats now => trivial
  attends := by
    intro key peer
    rw [hsame.attends, ← h.attends]
    simp only [ControlService.Opened, List.mem_append, List.mem_singleton, (hother key peer).symm,
      (hstays key).symm, or_false]
  conns := by
    intro key conn
    rw [hservice, ControlService.conns_step s.service hother hstays, hsame.attends]
    exact h.conns key conn
  owned := by
    have hknows := h.knows.step (P := P) (e := e) fun key peer heq => absurd heq (hother key peer)
    rw [hservice]
    exact (hknows.mono fun key ⟨peer, hpeer⟩ => ⟨peer, (hsame.attends key peer).mpr hpeer⟩).owned
  indexed := hservice ▸ ControlService.indexed_step h.indexed e
  about := by
    intro e' he' key hkey
    have hattends : (∃ peer, s.Attends key peer) ∨ ∃ c ∈ s.closed, c.key = key := by
      rcases List.mem_append.mp he' with hold | hnew
      · exact h.about e' hold key hkey
      · exact .inl (hfrom key (List.mem_singleton.mp hnew ▸ hkey))
    rcases hattends with ⟨peer, hpeer⟩ | ⟨d, hd, hdkey⟩
    · exact .inl ⟨peer, (hsame.attends key peer).mpr hpeer⟩
    · exact .inr ⟨d, hsame.closed hd, hdkey⟩
  opened := by
    intro key msg hd
    obtain ⟨peer, hpeer⟩ := h.opened key msg (hsame.opened key msg hd)
    exact ⟨peer, (hsame.attends key peer).mpr hpeer⟩

/-- Nothing has been said of a connection that is new. -/
theorem Serving.fresh (h : Serving P service₀ s events) (hi : s.Inv) (hc : ⟨.loop, c⟩ ∈ s.held)
    (hnew : c.mode = .new) (e : Event) (he : e ∈ events) : e.about ≠ some c.key := by
  intro habout
  rcases h.about e he c.key habout with ⟨peer, d, hd, hkey, -, hmode⟩ | ⟨d, hd, hkey⟩
  · obtain ⟨-, rfl⟩ := (Held.mk.injEq _ _ _ _).mp (hi.distinct.eq hd hc hkey)
    cases hmode.symm.trans hnew
  · exact (hi.gone d hd).2 _ hc hkey.symm

/-- The event that opens a connection is the first about it: its key was never
used before. -/
theorem Serving.opens (h : Serving P service₀ s events) (hi : s.Inv) (hc : ⟨.loop, c⟩ ∈ s.held)
    (hnew : c.mode = .new) (hservice : s'.service = s.service.onOpen c.key c.peer)
    (hdoing : ∀ key msg, s'.doing = .opened key msg → key = c.key) (hclosed : s.closed ⊆ s'.closed)
    (hmore : ∀ key peer, s'.Attends key peer ↔ s.Attends key peer ∨ key = c.key ∧ peer = c.peer) :
    Serving P service₀ s' (events ++ [.opened c.key c.peer]) := by
  have hfresh := h.fresh hi hc hnew
  have hunopened : ∀ peer, .opened c.key peer ∉ events := fun peer hmem => hfresh _ hmem rfl
  have hunclosed : .closed c.key ∉ events := fun hmem => hfresh _ hmem rfl
  have hunknown : ∀ peer, ¬ s.Attends c.key peer :=
    fun peer hpeer => hunopened peer ((h.attends c.key peer).mpr hpeer).1
  have hkept : ∀ key, (∃ peer, s.Attends key peer) → ∃ peer, s'.Attends key peer :=
    fun key ⟨peer, hpeer⟩ => ⟨peer, (hmore key peer).mpr (.inl hpeer)⟩
  refine ⟨⟨?_, h.orderly.snoc hfresh, fun key peer => ?_, fun key conn => ?_, ?_⟩, ?_, ?_, ?_⟩
  · rw [run_snoc, hservice, h.service]
    rfl
  · rw [hmore, ← h.attends]
    by_cases hkey : key = c.key
    · subst hkey
      simp [ControlService.Opened, hunopened, hunclosed]
    · simp [ControlService.Opened, hkey]
  · rw [hservice, hmore]
    by_cases hkey : key = c.key
    · subst hkey
      change (s.service.conns.insert c.key _).lookup c.key = some conn ↔ _
      rw [AList.lookup_insert, Option.some.injEq, or_iff_right (hunknown _), and_iff_right rfl]
      exact ⟨fun heq => heq ▸ rfl, fun hpeer => by rw [← hpeer]⟩
    · change (s.service.conns.insert c.key _).lookup key = some conn ↔ _
      rw [AList.lookup_insert_ne hkey, h.conns]
      exact (or_iff_left fun hboth => hkey hboth.1).symm
  · have hknows := (h.knows.mono hkept).step (P := P) (e := .opened c.key c.peer) fun key peer heq => by
      cases heq
      exact ⟨c.peer, (hmore c.key c.peer).mpr (.inr ⟨rfl, rfl⟩)⟩
    rw [hservice]
    exact hknows.owned
  · rw [hservice]
    exact h.indexed
  · intro e he key hkey
    rcases List.mem_append.mp he with hold | hlast
    · rcases h.about e hold key hkey with hattends | ⟨d, hd, hdkey⟩
      · exact .inl (hkept key hattends)
      · exact .inr ⟨d, hclosed hd, hdkey⟩
    · rw [List.mem_singleton.mp hlast] at hkey
      cases hkey
      exact .inl ⟨c.peer, (hmore c.key c.peer).mpr (.inr ⟨rfl, rfl⟩)⟩
  · intro key msg hd
    rw [hdoing key msg hd]
    exact ⟨c.peer, (hmore c.key c.peer).mpr (.inr ⟨rfl, rfl⟩)⟩

/-- The event that closes one is the last: nobody attends it afterwards. -/
theorem Serving.closes (h : Serving P service₀ s events) (hc : ⟨.loop, c⟩ ∈ s.held)
    (hcontrol : c.mode = .control) (hservice : s'.service = s.service.onClose c.key)
    (hdoing : ∀ key msg, s'.doing ≠ .opened key msg) (hclosed : c :: s.closed ⊆ s'.closed)
    (hless : ∀ key peer, s'.Attends key peer ↔ s.Attends key peer ∧ key ≠ c.key) :
    Serving P service₀ s' (events ++ [.closed c.key]) := by
  have hattends : s.Attends c.key c.peer := ⟨c, hc, rfl, rfl, hcontrol⟩
  refine ⟨⟨?_, h.orderly.snoc ⟨c.peer, (h.attends c.key c.peer).mpr hattends⟩, fun key peer => ?_,
    fun key conn => ?_, ?_⟩, ?_, ?_, fun key msg hd => absurd hd (hdoing key msg)⟩
  · rw [run_snoc, hservice, h.service]
    rfl
  · rw [hless, ← h.attends]
    simp only [ControlService.Opened, List.mem_append, List.mem_singleton, reduceCtorEq, or_false,
      Event.closed.injEq, not_or, and_assoc]
  · rw [hservice, hless]
    change (s.service.conns.erase c.key).lookup key = some conn ↔ _
    by_cases hkey : key = c.key
    · rw [hkey, AList.lookup_erase]
      exact iff_of_false (fun hconn => by cases hconn) fun hboth => hboth.2 rfl
    · rw [AList.lookup_erase_ne hkey, h.conns]
      exact (and_iff_left hkey).symm
  · have hkept : ∀ key, (∃ peer, s.Attends key peer) ∧ key ≠ c.key → ∃ peer, s'.Attends key peer :=
      fun key ⟨⟨peer, hpeer⟩, hkey⟩ => ⟨peer, (hless key peer).mpr ⟨hpeer, hkey⟩⟩
    rw [hservice]
    exact ((h.knows.closed h.indexed c.key).mono hkept).owned
  · rw [hservice]
    exact ControlService.indexed_step (P := P) h.indexed (.closed c.key)
  · intro e he key hkey
    by_cases hmine : key = c.key
    · exact .inr ⟨c, hclosed List.mem_cons_self, hmine.symm⟩
    · rcases List.mem_append.mp he with hold | hlast
      · rcases h.about e hold key hkey with ⟨peer, hpeer⟩ | ⟨d, hd, hdkey⟩
        · exact .inl ⟨peer, (hless key peer).mpr ⟨hpeer, hmine⟩⟩
        · exact .inr ⟨d, hclosed (List.mem_cons_of_mem _ hd), hdkey⟩
      · rw [List.mem_singleton.mp hlast] at hkey
        cases hkey
        exact absurd rfl hmine

/-- Whatever a turn tells, the service's run goes on with it and stays orderly. -/
theorem Serving.turn {said : List (ConnKey × Bytes)} (h : Serving P service₀ s events) (hi : s.Inv)
    (ht : Turn P s s' said) : ∃ events', Serving P service₀ s' events' ∧
      events'.flatMap Event.said = events.flatMap Event.said ++ said := by
  have hsnoc : ∀ e : Event,
      (events ++ [e]).flatMap Event.said = events.flatMap Event.said ++ e.said := by
    intro e
    rw [List.flatMap_append, List.flatMap_cons, List.flatMap_nil, List.append_nil]
  cases ht with
  | silent hservice hsame => exact ⟨_, h.silent hservice hsame, (List.append_nil _).symm⟩
  | tells e hservice hsame hother hstays hfrom =>
      exact ⟨_, h.tells hservice hsame hother hstays hfrom, hsnoc e⟩
  | opens c hc hnew hservice hdoing hclosed hmore =>
      exact ⟨_, h.opens hi hc hnew hservice hdoing hclosed hmore, hsnoc _⟩
  | closes c hc hcontrol hservice hdoing hclosed hless =>
      exact ⟨_, h.closes hc hcontrol hservice hdoing hclosed hless, hsnoc _⟩

end Serving

/-- Nobody is attended at the start and nothing has been told. -/
theorem Serving.init (cfg : RendezvousConfig) (secret : SymKey) :
    Serving P (ControlService.create cfg.registry secret cfg.control.maxUdpSources)
      (start cfg secret) [] := by
  have hnone : ∀ key peer, ¬ (start cfg secret).Attends key peer := by
    rintro key peer ⟨c, hc, -⟩
    exact absurd hc List.not_mem_nil
  refine ⟨⟨rfl, .nil, fun key peer => ?_, fun key conn => ?_, ?_⟩,
    ControlService.indexed_create cfg.registry secret cfg.control.maxUdpSources, ?_, ?_⟩
  · exact iff_of_false (fun hopened => absurd hopened.1 List.not_mem_nil) (hnone key peer)
  · refine iff_of_false (fun hconn => ?_) (hnone key conn.peer)
    cases (AList.lookup_empty key).symm.trans hconn
  · exact (ControlService.Knows.create cfg.registry secret cfg.control.maxUdpSources).owned
  · exact fun e he => absurd he List.not_mem_nil
  · intro key msg hd
    cases hd

/-- Whatever the loop and the workers do, the service has been told an orderly
run of events, of the control connections the loop has held, and it knows those
it holds now.  So whatever holds after every run of the service holds in the
server, and no record and no relay outlives the connection it belongs to. -/
theorem server_runs_service (cfg : RendezvousConfig) (secret : SymKey) (actions : List Action) :
    ∃ events, Serves P (ControlService.create cfg.registry secret cfg.control.maxUdpSources)
      (run (step P) (start cfg secret) actions) events := by
  have hrun : (run (step P) (start cfg secret) actions).Books ∧ ∃ events,
      Serving P (ControlService.create cfg.registry secret cfg.control.maxUdpSources)
        (run (step P) (start cfg secret) actions) events := by
    refine run_invariant (I := fun s => s.Books ∧ ∃ events, Serving P _ s events) ?_
      ⟨Books.init cfg secret, [], Serving.init cfg secret⟩ actions
    rintro s a ⟨hb, events, h⟩
    obtain ⟨events', h', -⟩ := h.turn hb.inv (Turn.step hb.inv h.opened a)
    exact ⟨hb.step a, events', h'⟩
  obtain ⟨-, events, h⟩ := hrun
  exact ⟨events, h.toServes⟩

end Rendezvous

end UConnect.Server
