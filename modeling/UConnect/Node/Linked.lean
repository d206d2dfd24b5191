/-
  Node/Linked.lean --- one connection of the control loop, as Node/Publish has
  it.

  Source: src/api/node.cpp, the functions of Node/ControlLoop and Node/Publish.

  The loop and the link run side by side: the link does at each step of the loop
  what that step is to it (`shadow`), and the server's steps are the link's
  alone.  While one connection lasts the link sees the loop at every moment,
  whatever state of the loop the connection began in.  So what
  Node/Registrations proves of every run of the link holds of the loop, with its
  bytes and its other requests, as `no_record_behind` says for a node's first
  connection.
-/
import UConnect.Node.ControlSteps

set_option autoImplicit false

namespace UConnect.Node

open UConnect.Foundation UConnect.Crypto UConnect.Server UConnect.Wire

/-- The loop, and the link that sees it. -/
structure Linked where
  loop : ControlLoop
  link : ControlLink

namespace Linked

open ControlLoop

variable (P : Primitives) (conn : ConnView) {s : Linked}

/-- What a step of the loop is to the link. -/
def shadow (s : Linked) : ControlLoop.Op → List ControlLink.Op
  | .driveConnecting now _ _ =>
      if s.loop.ctlState = .connecting then
        sent s.loop (s.loop.sendConnKeepalive now) .other ++ s.loop.topicIds.map .reregister
      else []
  | .takeMessage _ _ => if s.loop.Tells s.link then [.hear] else []
  | .topicKeepalive tid now clock =>
      sent s.loop (s.loop.topicKeepalive tid now clock) (.sendKeepalive tid)
  | .join tid keyed => [.join tid keyed]
  | .publish tid «meta» unlisted _ => [.publish tid «meta» unlisted]
  | .wake txn expired _ => [.wake txn expired]
  | .unpublish tid => [.unpublish tid]
  | .leave tid => [.leave tid]
  | .leaveRest i => [.leaveRest i]
  | op => sent s.loop (s.loop.step op) .other

/-- What happens next: a step of the loop, or one of the server. -/
inductive Op where
  | node (op : ControlLoop.Op)
  | serve (now : Instant)
  | registry (op : Registry.Op)

/-- The operations of the link. -/
def linkOps (s : Linked) : Op → List ControlLink.Op
  | .node op => s.shadow op
  | .serve now => [.serve now]
  | .registry op => [.registry op]

/-- One step of both. -/
def step (s : Linked) (op : Op) : Linked where
  loop := match op with
    | .node op => s.loop.step op
    | _ => s.loop
  link := run (ControlLink.step P conn) s.link (s.linkOps op)

/-- The connection is up after the step.  A message that the loop takes is what
the link hears next, or is for none of the link's requests. -/
def Lasts (s : Linked) : Op → Prop
  | .node op => (s.loop.step op).ctlState = .up ∧
      match op with
      | .takeMessage _ _ =>
          s.loop.Tells s.link ∨ ∀ msg ∈ s.loop.ctlReader.next.1, s.loop.Aside msg
      | _ => True
  | _ => True

/-- The link sees the loop, whose requests are as they should be. -/
structure Inv (s : Linked) : Prop where
  shows : s.loop.Shows s.link
  shaped : s.loop.Shaped
  numbered : s.loop.Numbered

/-! ## Steps

A step of the loop is its shadow at the link, and a step of the server is the
link's. -/

theorem Inv.fresh (h : s.Inv) (hroom : s.loop.asked < 2 ^ 32) :
    s.loop.requests.lookup s.loop.nextTxn = none := h.numbered.fresh hroom

theorem shown_node (h : s.Inv) {op : ControlLoop.Op} (hlasts : s.Lasts (.node op))
    (hroom : s.loop.asked < 2 ^ 32) :
    (s.loop.step op).Shows (run (ControlLink.step P conn) s.link (s.shadow op)) := by
  obtain ⟨hup, htold⟩ := hlasts
  have hfresh := h.fresh hroom
  cases op with
  | driveConnecting now clock sock => exact h.shows.driveConnecting P conn hfresh now clock sock hup
  | takeMessage now clock => exact h.shows.takeMessage P conn h.shaped hup htold
  | topicKeepalive tid now clock => exact h.shows.topicKeepalive P conn h.shaped tid now clock
  | join tid keyed => exact h.shows.join tid keyed
  | publish tid «meta» unlisted clock => exact h.shows.publish tid «meta» unlisted clock
  | wake txn expired clock => exact h.shows.wake txn expired clock
  | unpublish tid => exact h.shows.unpublish hup
  | leave tid => exact h.shows.leave tid
  | leaveRest i => exact h.shows.leaveRest hup
  | connKeepalive now => exact h.shows.connKeepalive P conn hfresh now
  | discover tid full now clock => exact h.shows.discover P conn hfresh tid full now clock
  | requestRelay tid dev epoch clock =>
      exact h.shows.requestRelay P conn hfresh tid dev epoch clock
  | notify q => exact (h.shows.other (about_question q h.shows.bound 0)).spoken P conn rfl
  | ask q expect clock =>
      exact (h.shows.asking_other hfresh (about_question q h.shows.bound q.flags) rfl).spoken P conn
        rfl
  | askEmpty type expect hasked =>
      exact (h.shows.asking_other hfresh
        (about_emptyMessage hasked.1 hasked.2.1 hasked.2.2.2 h.shows.bound) rfl).spoken P conn rfl
  | setAutoConnect tid on => exact (h.shows.setAutoConnect tid on).silent P conn rfl
  | takeBack txn => exact (h.shows.takeBack h.shaped txn).silent P conn (takeBack_asked _ txn)
  | driveDown now opened => exact h.shows.unseen P conn (driveDown_seen s.loop now opened)
  | recv now got => exact h.shows.unseen P conn (recv_seen hup)
  | checkDeadlines now => exact h.shows.unseen P conn (checkDeadlines_seen hup)
  | send now sent => exact h.shows.unseen P conn (send_seen hup)

theorem loop_step {c : ControlLoop} (hshaped : c.Shaped) (hnumbered : c.Numbered)
    (op : ControlLoop.Op) :
    (c.step op).Shaped ∧ (c.step op).Numbered ∧ c.asked ≤ (c.step op).asked := by
  obtain ⟨hshaped', hnumbered', hle⟩ := (step_moves hshaped op).keeps
    (I := fun c' => c'.Numbered ∧ c.asked ≤ c'.asked)
    (fun _ hmove h => ⟨hmove.numbered h.1, Nat.le_trans h.2 hmove.grows.1⟩)
    hshaped ⟨hnumbered, Nat.le_refl _⟩
  exact ⟨hshaped', hnumbered', hle⟩

/-- The server's steps are the link's alone. -/
theorem Inv.serve (h : s.Inv) (now : Instant) : (s.step P conn (.serve now)).Inv := by
  refine ⟨?_, h.shaped, h.numbered⟩
  show s.loop.Shows (s.link.serve P conn now)
  obtain ⟨served, hserved⟩ := h.shows.carried
  unfold ControlLink.serve
  cases hto : s.link.toServer with
  | nil => exact h.shows
  | cons m rest =>
      exact
        { h.shows with
          carried := ⟨served ++ [m], by rw [hserved, hto, List.append_assoc]; rfl⟩ }

theorem Inv.registry (h : s.Inv) (op : Registry.Op) : (s.step P conn (.registry op)).Inv := by
  refine ⟨?_, h.shaped, h.numbered⟩
  show s.loop.Shows (if ControlLink.registrar op = some conn.key then s.link
    else { s.link with registry := s.link.registry.step P op })
  split
  · exact h.shows
  · exact { h.shows with }

/-- A step of the loop is what the link does meanwhile. -/
theorem Inv.step (h : s.Inv) {op : Op} (hlasts : s.Lasts op) (hroom : s.loop.asked < 2 ^ 32) :
    (s.step P conn op).Inv := by
  cases op with
  | node op =>
      obtain ⟨hshaped, hnumbered, -⟩ := loop_step h.shaped h.numbered op
      exact ⟨shown_node P conn h hlasts hroom, hshaped, hnumbered⟩
  | serve now => exact h.serve P conn now
  | registry op => exact h.registry P conn op

/-! ## Runs

What the link sees, along a run during which the connection lasts. -/

/-- What holds of every step up to the last transaction. -/
structure Keeps (I : Linked → Prop) (s : Linked) : Prop where
  shaped : s.loop.Shaped
  numbered : s.loop.Numbered
  holds : s.loop.asked < 2 ^ 32 → I s

/-- As long as the transactions have not come round, what every step keeps every
run keeps. -/
theorem keeps_run {I : Linked → Prop} {C : Linked → Op → Prop}
    (hstep : ∀ s op, C s op → s.loop.asked < 2 ^ 32 → (s.step P conn op).loop.asked < 2 ^ 32 →
      I s → I (s.step P conn op))
    (h : s.Keeps I) (ops : List Op) (hall : AllSteps C (step P conn) s ops) :
    (run (step P conn) s ops).Keeps I := by
  refine run_invariant_of_allSteps (C := C) (fun s op hC hs => ?_) h ops hall
  cases op with
  | node op =>
      obtain ⟨hshaped, hnumbered, hle⟩ := loop_step hs.shaped hs.numbered op
      refine ⟨hshaped, hnumbered, fun hroom => ?_⟩
      have hbefore : s.loop.asked < 2 ^ 32 := Nat.lt_of_le_of_lt hle hroom
      exact hstep s _ hC hbefore hroom (hs.holds hbefore)
  | serve now | registry op =>
      exact ⟨hs.shaped, hs.numbered, fun hroom => hstep s _ hC hroom hroom (hs.holds hroom)⟩

/-- As long as one connection lasts, the link sees the loop. -/
theorem shown_run (h : s.Inv) (ops : List Op) (hlasts : AllSteps Lasts (step P conn) s ops)
    (hroom : (run (step P conn) s ops).loop.asked < 2 ^ 32) : (run (step P conn) s ops).Inv :=
  (keeps_run P conn (fun _ _ hC hbefore _ hs => hs.step P conn hC hbefore)
    ⟨h.shaped, h.numbered, fun _ => h⟩ ops hlasts).holds hroom

/-- What the link does meanwhile is a run of it. -/
theorem link_run (s : Linked) (ops : List Op) :
    (run (step P conn) s ops).link =
      run (ControlLink.step P conn) s.link (trace linkOps (step P conn) s ops) := by
  induction ops generalizing s with
  | nil => rfl
  | cons op ops ih =>
      rw [run_cons, ih, trace, run_append]
      rfl

/-! ## Where a connection begins

Any state of the loop is seen by some link, whose queues hold what the loop has
queued. -/

/-- A table of what the values of another table are to it. -/
theorem exists_lookup {κ ν μ : Type} [DecidableEq κ] (s : AList fun _ : κ => ν) (f : ν → Option μ) :
    ∃ t : AList fun _ : κ => μ, ∀ k, t.lookup k = (s.lookup k).bind f := by
  induction s using AList.insertRec with
  | H0 => exact ⟨∅, fun k => rfl⟩
  | IH k v s hnew ih =>
      obtain ⟨t, ht⟩ := ih
      have hold : s.lookup k = none := AList.lookup_eq_none.mpr hnew
      cases hf : f v with
      | none =>
          refine ⟨t, fun k' => ?_⟩
          rw [ht, lookup_insert_ite]
          split
          · rename_i heq
            rw [heq, hold, Option.bind_some, hf]
            rfl
          · rfl
      | some u =>
          refine ⟨t.insert k u, fun k' => ?_⟩
          rw [lookup_insert_ite, lookup_insert_ite]
          split
          · rw [Option.bind_some, hf]
          · exact ht k'

/-- What a request is in the link's table. -/
def toLink (r : ControlLoop.Request) : Option Request :=
  r.purpose.map fun purpose =>
    { purpose := purpose
      loopOwned := r.loopOwned
      done := r.done
      error := if r.error = ErrorCode.none.code then .none else .badRequest
      reply := (ControlLoop.registered r.reply).map (·.devId) }

theorem paired_toLink (r : ControlLoop.Request) : Paired (some r) (toLink r) := by
  unfold toLink
  cases hpurpose : r.purpose with
  | none => exact .aside hpurpose
  | some purpose =>
      refine .same ⟨hpurpose, rfl, rfl, ?_, rfl⟩
      dsimp only
      split
      · rename_i herror
        exact iff_of_true rfl herror
      · rename_i herror
        exact iff_of_false (by decide) herror

/-- Every message queued about a registration is one that the link knows. -/
structure Wording (c : ControlLoop) : Prop where
  bound : c.nextTxn < 2 ^ 32
  worded : ∀ m ∈ c.queued, Worded m

theorem Wording.move {c c' : ControlLoop} (h : Wording c) (hmove : Move c c') : Wording c' := by
  have hqueue : ∀ {m}, Worded m → ∀ m' ∈ c.queued ++ [m], Worded m' := by
    intro m hm m' hmem
    rcases List.mem_append.mp hmem with hmem | hmem
    · exact h.worded m' hmem
    · cases List.mem_singleton.mp hmem
      exact hm
  cases hmove with
  | notes | hears | settles | answers | adopts | drops | changes | joins | publishes | leaves
  | sends | fails | dials | ups => exact ⟨h.bound, h.worded⟩
  | asks m r hasks => exact ⟨next_allocTxn c, hqueue (hasks.worded h.bound)⟩
  | tells m hm hworded => exact ⟨next_allocTxn c, hqueue (hworded h.bound)⟩
  | registers tid ti hti m r hasks hfor howned =>
      exact ⟨next_allocTxn c, hqueue (hasks.worded h.bound)⟩
  | downs => exact ⟨h.bound, fun m hm => absurd hm List.not_mem_nil⟩

theorem exists_said {ms : List Bytes} (h : ∀ m ∈ ms, Worded m) :
    ∃ said : List CtlMessage, ms.filter about = said.map CtlMessage.bytes := by
  induction ms with
  | nil => exact ⟨[], rfl⟩
  | cons m ms ih =>
      obtain ⟨said, hsaid⟩ := ih fun m' hm' => h m' (List.mem_cons_of_mem m hm')
      cases habout : about m with
      | false => exact ⟨said, by rw [List.filter_cons_of_neg (by simp [habout]), hsaid]⟩
      | true =>
          obtain ⟨first, rfl⟩ := h m List.mem_cons_self habout
          exact ⟨first :: said, by rw [List.filter_cons_of_pos habout, hsaid, List.map_cons]⟩

/-- Whatever state of the loop a connection begins in, there is a link that sees
it: on every connection the loop does what a link does. -/
theorem exists_link (keepalive : Duration) (hostCands : List Candidate) (firstTxn : UInt32)
    (ops : List ControlLoop.Op) (registry : Registry) :
    ∃ link : ControlLink, link.registry = registry ∧ link.toNode = [] ∧
      (⟨run ControlLoop.step (start keepalive hostCands firstTxn) ops, link⟩ : Linked).Inv := by
  obtain ⟨hshaped, hnumbered, hwording⟩ := run_keeps (I := fun c => c.Numbered ∧ Wording c)
    (fun _ hmove h => ⟨hmove.numbered h.1, h.2.move hmove⟩)
    (shaped_start keepalive hostCands firstTxn)
    ⟨numbered_start keepalive hostCands firstTxn, firstTxn.toNat_lt,
      fun m hm => absurd hm List.not_mem_nil⟩ ops
  generalize run ControlLoop.step (start keepalive hostCands firstTxn) ops = c at *
  obtain ⟨topics, htopics⟩ := exists_lookup c.topics fun ti => some ti.toTopicImpl
  obtain ⟨requests, hrequests⟩ := exists_lookup c.requests toLink
  obtain ⟨said, hsaid⟩ := exists_said hwording.worded
  let link : ControlLink := {
    topics := topics
    requests := requests
    nextTxn := c.nextTxn
    hostCands := c.hostCands
    leaving := c.leaving.map fun ti => (Vector.replicate 16 0, ti.toTopicImpl)
    toServer := said
    registry := registry }
  refine ⟨link, rfl, rfl,
    ⟨hwording.bound, rfl, Nat.zero_le _, rfl, fun tid => ?_, ?_, fun txn => ?_, [], ?_⟩,
    hshaped, hnumbered⟩
  · rw [Option.map_eq_bind]
    exact htopics tid
  · show (c.leaving.map _).map Prod.snd = _
    rw [List.map_map]
    rfl
  · show Paired (c.requests.lookup txn) (requests.lookup txn)
    rw [hrequests]
    cases c.requests.lookup txn with
    | none => exact .none
    | some r => exact paired_toLink r
  · rw [hsaid]
    rfl

/-! ## The first connection

For it the link is a fresh one, so what is proved of runs from a fresh link
holds of the loop. -/

/-- A node that connects for the first time. -/
def first (keepalive : Duration) (hostCands : List Candidate) (firstTxn : UInt32) (now : Instant)
    (registry : Registry) : Linked where
  loop := (start keepalive hostCands firstTxn).driveDown now true
  link := { nextTxn := firstTxn.toNat, hostCands := hostCands, registry := registry }

/-- No call gives up on a REGISTER whose success the loop has stored. -/
def Heeded (s : Linked) : Op → Prop
  | .node (.wake txn true _) => ∀ r ∈ s.loop.requests.lookup txn,
      ¬ (r.done = true ∧ r.error = ErrorCode.none.code)
  | _ => True

theorem inv_first (keepalive : Duration) (hostCands : List Candidate) (firstTxn : UInt32)
    (now : Instant) (registry : Registry) :
    (first keepalive hostCands firstTxn now registry).Inv := by
  obtain ⟨hshaped, hnumbered, -⟩ := loop_step (shaped_start keepalive hostCands firstTxn)
    (numbered_start keepalive hostCands firstTxn) (.driveDown now true)
  refine ⟨Shows.congr ?_ (driveDown_seen _ now true), hshaped, hnumbered⟩
  exact ⟨firstTxn.toNat_lt, rfl, Nat.le_refl _, rfl, fun _ => rfl, rfl, fun _ => .none, [], rfl⟩

/-- An operation that is no call giving up. -/
def Calm (op : ControlLink.Op) : Prop := ∀ txn, op ≠ .wake txn true

theorem heeded_of_calm {ops : List ControlLink.Op} (h : ∀ op ∈ ops, Calm op) (l : ControlLink) :
    AllSteps ControlLink.Heeded (ControlLink.step P conn) l ops := by
  refine (allSteps_of_forall h l).mono fun l op hcalm => ?_
  cases op with
  | wake txn expired =>
      cases expired with
      | true => exact absurd rfl (hcalm txn)
      | false => trivial
  | _ => trivial

theorem calm_sent (before after : ControlLoop) {op : ControlLink.Op} (h : Calm op) :
    ∀ op' ∈ sent before after op, Calm op' := by
  intro op' hop'
  unfold sent at hop'
  split at hop'
  · cases hop'
  · cases List.mem_singleton.mp hop'
    exact h

/-- What is no call giving up is none on the link. -/
theorem calm_linkOps {op : Op} (h : ∀ txn clock, op ≠ .node (.wake txn true clock)) :
    ∀ op' ∈ s.linkOps op, Calm op' := by
  have hone : ∀ {a : ControlLink.Op}, Calm a → ∀ op' ∈ [a], Calm op' := by
    intro a ha op' hop'
    cases List.mem_singleton.mp hop'
    exact ha
  cases op with
  | serve now | registry op => exact hone fun _ => ControlLink.Op.noConfusion
  | node op =>
      cases op with
      | wake txn expired clock =>
          refine hone fun txn' hwake => ?_
          cases hwake
          exact h txn clock rfl
      | driveConnecting now clock sock =>
          intro op' hop'
          change op' ∈ (if s.loop.ctlState = .connecting then _ else _) at hop'
          split at hop'
          · rcases List.mem_append.mp hop' with hop' | hop'
            · exact calm_sent _ _ (fun _ => ControlLink.Op.noConfusion) op' hop'
            · obtain ⟨tid, -, rfl⟩ := List.mem_map.mp hop'
              exact fun _ => ControlLink.Op.noConfusion
          · cases hop'
      | takeMessage now clock =>
          intro op' hop'
          change op' ∈ (if s.loop.Tells s.link then _ else _) at hop'
          split at hop'
          · exact hone (fun _ => ControlLink.Op.noConfusion) op' hop'
          · cases hop'
      | join | publish | unpublish | leave | leaveRest =>
          exact hone fun _ => ControlLink.Op.noConfusion
      | _ => exact calm_sent _ _ fun _ => ControlLink.Op.noConfusion

/-- What is heeded on the loop is heeded on the link. -/
theorem Inv.heeded (h : s.Inv) {op : Op} (hheed : s.Heeded op) :
    AllSteps ControlLink.Heeded (ControlLink.step P conn) s.link (s.linkOps op) := by
  by_cases hwake : ∃ txn clock, op = .node (.wake txn true clock)
  · obtain ⟨txn, clock, rfl⟩ := hwake
    refine ⟨fun q hq hstored => ?_, trivial⟩
    obtain ⟨r, hr, hsame⟩ := h.shows.requests.lookup_some hq
    exact hheed r hr ⟨hsame.done.symm.trans hstored.1, hsame.error.mp hstored.2⟩
  · refine heeded_of_calm P conn (calm_linkOps fun txn clock heq => ?_) s.link
    exact hwake ⟨txn, clock, heq⟩

/-- The link's registry holds nothing of this connection. -/
theorem fresh_first (keepalive : Duration) (hostCands : List Candidate) (firstTxn : UInt32)
    (now : Instant) {registry : Registry}
    (hunheld : ∀ tid, ¬ (first keepalive hostCands firstTxn now registry).link.Held conn tid) :
    (first keepalive hostCands firstTxn now registry).link.Fresh conn :=
  ⟨firstTxn.toNat_lt, rfl, rfl, rfl, rfl, hunheld⟩

/-- Everything about the topic has come to rest and it is not published, as the
loop has it. -/
structure AtRest (s : Linked) (tid : TopicId) : Prop where
  toServer : s.link.toServer = []
  toNode : s.link.toNode = []
  idle : s.loop.publishActive tid = false
  left : s.loop.leaving = []
  unpublished : ∀ ti, s.loop.topics.lookup tid = some ti → ti.published = false

theorem Inv.atRest (h : s.Inv) {tid : TopicId} (hrest : s.AtRest tid) : s.link.AtRest tid where
  toServer := hrest.toServer
  toNode := hrest.toNode
  idle := (h.shows.publishActive tid).trans hrest.idle
  left ti hti := by
    have hnone := h.shows.leaving
    rw [hrest.left, List.map_nil, List.map_eq_nil_iff] at hnone
    rw [hnone] at hti
    cases hti
  unpublished ti hti := by
    rw [h.shows.topics tid] at hti
    obtain ⟨ti', hti', rfl⟩ := Option.map_eq_some_iff.mp hti
    exact hrest.unpublished ti' hti'

/-- No registration is left behind on a node's first connection: in every run of
the loop with all its requests, in which no call of `publish` gives up on an
answered REGISTER, the server holds no record of a topic that has come to rest
and is not published. -/
theorem no_record_behind (keepalive : Duration) (hostCands : List Candidate) (firstTxn : UInt32)
    (now : Instant) {registry : Registry}
    (hunheld : ∀ tid, ¬ (first keepalive hostCands firstTxn now registry).link.Held conn tid)
    (ops : List Op)
    (hsteps : AllSteps (fun s op => s.Lasts op ∧ s.Heeded op) (step P conn)
      (first keepalive hostCands firstTxn now registry) ops)
    (hroom : (run (step P conn) (first keepalive hostCands firstTxn now registry) ops).loop.asked <
      2 ^ 32) {tid : TopicId}
    (hrest : (run (step P conn) (first keepalive hostCands firstTxn now registry) ops).AtRest tid) :
    ¬ (run (step P conn) (first keepalive hostCands firstTxn now registry) ops).link.Held conn
      tid := by
  have hinv := inv_first keepalive hostCands firstTxn now registry
  have hfresh := fresh_first conn keepalive hostCands firstTxn now hunheld
  obtain ⟨hshown, hlink⟩ := (keeps_run P conn
    (I := fun s => s.Inv ∧ s.link.Inv P conn registry.secret)
    (fun s op hC hbefore hafter hs => by
      have hnext := hs.1.step P conn hC.1 hbefore
      refine ⟨hnext, ControlLink.inv_run hs.2 _ (hs.1.heeded P conn hC.2) ?_⟩
      exact Nat.le_trans hnext.shows.asked hafter.le)
    ⟨hinv.shaped, hinv.numbered, fun _ => ⟨hinv, hfresh.inv⟩⟩ ops hsteps).holds hroom
  exact hlink.not_held (hshown.atRest hrest)

end Linked

end UConnect.Node
