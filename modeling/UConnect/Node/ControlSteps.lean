/-
  Node/ControlSteps.lean --- the steps of the control loop, as the link sees
  them.

  Source: src/api/node.cpp, the functions of Node/ControlLoop and Node/Publish.

  Every function of the loop has its lemma here: it keeps what the link sees,
  with the function of the link that it is or with none.  What sends messages
  about something else takes transactions from the link too, as many as from the
  loop (`sent`); the connection's own steps do nothing that the link sees as
  long as it does not go down.
-/
import Mathlib.Data.List.InsertIdx
import UConnect.Node.ControlView

set_option autoImplicit false

namespace UConnect.Node

open UConnect.Foundation UConnect.Crypto UConnect.Server UConnect.Wire

namespace ControlLoop

variable {c c' : ControlLoop} {l : ControlLink} {txn : Nat} {tid : TopicId} {ti : Topic}
  {m : Bytes} {r : Request} {q : Node.Request} {now clock : Instant}

/-! ## Calls

What a call does to the link, cut where the call waits. -/

theorem Shows.join (h : c.Shows l) (tid : TopicId) (keyed : Bool) :
    (c.join tid keyed).Shows (l.join tid keyed) := by
  unfold ControlLoop.join ControlLink.join
  rw [h.topics tid]
  cases c.topics.lookup tid with
  | none => exact h.setTopic tid { keyed := keyed }
  | some ti => exact h

theorem Shows.publish (h : c.Shows l) (tid : TopicId) («meta» : Bytes) (unlisted : Bool)
    (clock : Instant) :
    (c.publish tid «meta» unlisted clock).Shows (l.publish tid «meta» unlisted) := by
  unfold ControlLoop.publish ControlLink.publish
  rw [h.topics tid]
  cases c.topics.lookup tid with
  | none => exact h
  | some ti =>
      exact (h.setTopic tid { ti with «meta» := «meta», unlisted := unlisted }).register
        ⟨rfl, rfl, rfl, iff_of_true rfl rfl, rfl⟩ tid
        { ti with «meta» := «meta», unlisted := unlisted }

/-- A topic is published once its REGISTER has been answered. -/
theorem Shows.grant (h : c.Shows l) (ok : Option RegisterOk) (tid : TopicId) (clock : Instant) :
    Shows
      (match ok with
      | none => c
      | some ok =>
          match c.topics.lookup tid with
          | none => c
          | some ti =>
              { c.setTopic tid { ti with
                  self := some ok.devId
                  published := true
                  reregistering := false
                  nextKeepalive := clock + c.keepalive } with srflx := some ok.srflx })
      (match ok.map (·.devId), l.topics.lookup tid with
      | some dev, some ti =>
          l.setTopic tid { ti with self := some dev, published := true, reregistering := false }
      | _, _ => l) := by
  rw [h.topics tid]
  cases ok with
  | none => exact h
  | some ok =>
      cases c.topics.lookup tid with
      | none => exact h
      | some ti =>
          exact (h.setTopic tid { ti with
            self := some ok.devId
            published := true
            reregistering := false
            nextKeepalive := clock + c.keepalive }).congr rfl

/-- A call that gives up leaves its request to the loop, and one that ends takes
it back. -/
theorem Shows.ends (h : c.Shows l) (hsame : r.Same q) (txn : Nat) (gives : Prop) [Decidable gives]
    (deadline : Instant) :
    ({ c with
      requests :=
        if gives then c.requests.insert txn { r with loopOwned := true, deadline := deadline }
        else c.requests.erase txn } : ControlLoop).Shows
      { l with
        requests := if gives then l.requests.insert txn { q with loopOwned := true }
          else l.requests.erase txn } := by
  split
  · exact h.insert txn { hsame with owned := rfl }
  · exact h.erase txn

/-- A call that waits for something else is none of the link's. -/
theorem Tables.not_register {rs : AList (fun _ : Nat => Request)}
    {qs : AList (fun _ : Nat => Node.Request)} (h : Tables rs qs) (hr : rs.lookup txn = some r)
    (hfor : r.registerFor = none) :
    ∀ q, qs.lookup txn = some q → ∃ tid, q.purpose = .keepalive tid := by
  intro q hq
  obtain ⟨r', hr', hsame⟩ := h.lookup_some hq
  cases hr.symm.trans hr'
  cases hpurpose : q.purpose with
  | register tid => cases hfor.symm.trans (hsame.registers.mpr hpurpose)
  | keepalive tid => exact ⟨tid, rfl⟩

/-- A call of `publish` ends on both. -/
theorem Shows.wake (h : c.Shows l) (txn : Nat) (expired : Bool) (clock : Instant) :
    (c.wake txn expired clock).Shows (l.wake txn expired) := by
  unfold ControlLoop.wake ControlLink.wake
  cases hr : c.requests.lookup txn with
  | none =>
      rw [h.requests.lookup_none hr]
      exact h
  | some r =>
      dsimp only
      cases hfor : r.registerFor with
      | none =>
          cases hq : l.requests.lookup txn with
          | none => exact h
          | some q =>
              obtain ⟨tid, hpurpose⟩ := h.requests.not_register hr hfor q hq
              dsimp only
              rw [hpurpose]
              exact h
      | some tid =>
          obtain ⟨q, hq, hsame⟩ := h.requests.lookup_same hr (by
            unfold Request.purpose
            rw [hfor]
            rfl)
          have hpurpose := hsame.registers.mp hfor
          rw [hq]
          obtain ⟨purpose, owned, done, error, reply⟩ := q
          obtain rfl : purpose = .register tid := hpurpose
          obtain rfl : owned = r.loopOwned := hsame.owned
          obtain rfl : done = r.done := hsame.done
          obtain rfl : reply = (ControlLoop.registered r.reply).map (·.devId) := hsame.reply
          dsimp only
          split
          · exact h
          · have hgranted :
                (if !expired && r.done && decide (error = .none) then
                  (ControlLoop.registered r.reply).map (·.devId) else none) =
                (if !expired && r.done && decide (r.error = ErrorCode.none.code) then
                  ControlLoop.registered r.reply else none).map (·.devId) := by
              have herror : error = .none ↔ r.error = ErrorCode.none.code := hsame.error
              simp only [herror]
              split <;> rfl
            have hends := h.ends hsame txn (!(!expired && r.done) && !r.done)
              (clock + kControlTimeout)
            unfold ControlLoop.finishPublish
            dsimp only
            rw [hgranted]
            exact hends.grant _ tid clock

/-- The connection is up, and the record of the topic goes. -/
theorem Shows.unregisterSelf (h : c.Shows l) (hup : c.ctlState = .up) (ti : Topic) :
    (c.unregisterSelf ti).Shows (l.unregisterSelf ti.toTopicImpl) := by
  unfold ControlLoop.unregisterSelf ControlLink.unregisterSelf
  cases ti.self with
  | none => exact h
  | some dev =>
      dsimp only
      rw [if_pos hup]
      exact h.notify (.unregister · dev) fun _ => rfl

@[simp] theorem unregisterSelf_ctlState (c : ControlLoop) (ti : Topic) :
    (c.unregisterSelf ti).ctlState = c.ctlState := by
  unfold ControlLoop.unregisterSelf
  cases ti.self with
  | none => rfl
  | some dev =>
      dsimp only
      split <;> rfl

theorem Shows.unpublish (h : c.Shows l) (hup : (c.unpublish tid).ctlState = .up) :
    (c.unpublish tid).Shows (l.unpublish tid) := by
  unfold ControlLoop.unpublish at hup
  unfold ControlLoop.unpublish ControlLink.unpublish
  rw [h.topics tid]
  cases hti : c.topics.lookup tid with
  | none => exact h
  | some ti =>
      rw [hti] at hup
      have hstate : c.ctlState = .up := (unregisterSelf_ctlState c ti).symm.trans hup
      exact (h.unregisterSelf hstate ti).setTopic tid { ti with published := false, self := none }

theorem Shows.publishActive (h : c.Shows l) (tid : TopicId) :
    l.publishActive tid = c.publishActive tid := by
  refine h.requests.any (f := fun r => !r.loopOwned && r.registerFor = some tid)
    (g := fun q => !q.loopOwned && q.purpose = .register tid) (fun hsame => ?_) (fun hnone => ?_)
  · rw [hsame.owned, decide_eq_decide.mpr hsame.registers]
  · rw [(Request.purpose_eq_none.mp hnone).1]
    simp

theorem Shows.setAutoConnect (h : c.Shows l) (tid : TopicId) (on : Bool) :
    (c.setAutoConnect tid on).Shows l := by
  unfold ControlLoop.setAutoConnect modifyAt
  cases hti : c.topics.lookup tid with
  | none => exact h
  | some ti => exact h.setTopic_same hti rfl

/-- Only a caller's request about something else is taken back so. -/
theorem Shows.takeBack (h : c.Shows l) (hshaped : c.Shaped) (txn : Nat) :
    (c.takeBack txn).Shows l := by
  unfold ControlLoop.takeBack
  cases hr : c.requests.lookup txn with
  | none => exact h
  | some r =>
      dsimp only
      split
      · exact h
      · rename_i hmine
        have hfor : r.registerFor = none := by
          cases hfor : r.registerFor with
          | none => rfl
          | some tid => exact absurd (by simp [hfor]) hmine
        have hkeep : r.keepaliveFor = none := by
          cases hkeep : r.keepaliveFor with
          | none => rfl
          | some tid => exact absurd (by simp [((hshaped txn r hr).expects hkeep).2]) hmine
        have hq := h.requests.lookup_aside hr (Request.purpose_eq_none.mpr ⟨hfor, hkeep⟩)
        exact { h with requests := h.requests.erase_aside hq }

@[simp] theorem takeBack_asked (c : ControlLoop) (txn : Nat) :
    (c.takeBack txn).asked = c.asked := by
  unfold ControlLoop.takeBack
  split
  · rfl
  · split <;> rfl

theorem Shows.leave (h : c.Shows l) (tid : TopicId) : (c.leave tid).Shows (l.leave tid) := by
  unfold ControlLoop.leave ControlLink.leave
  rw [h.topics tid, h.publishActive tid]
  cases c.topics.lookup tid with
  | none => exact h
  | some ti =>
      dsimp only [Option.map_some]
      split
      · exact h
      · exact
          { h with
            topics := fun tid' => by
              show (l.topics.erase tid).lookup tid' =
                ((c.topics.erase tid).lookup tid').map Topic.toTopicImpl
              rw [lookup_erase_ite, lookup_erase_ite]
              split
              · rfl
              · exact h.topics tid'
            leaving := by
              show (l.leaving ++ [(tid, ti.toTopicImpl)]).map Prod.snd =
                (c.leaving ++ [ti]).map Topic.toTopicImpl
              rw [List.map_append, List.map_append, h.leaving]
              rfl }

theorem Shows.leaveRest (h : c.Shows l) {i : Nat} (hup : (c.leaveRest i).ctlState = .up) :
    (c.leaveRest i).Shows (l.leaveRest i) := by
  unfold ControlLoop.leaveRest at hup
  have hget := congrArg (·[i]?) h.leaving
  simp only [List.getElem?_map] at hget
  unfold ControlLoop.leaveRest ControlLink.leaveRest
  cases hti : c.leaving[i]? with
  | none =>
      rw [hti, Option.map_none, Option.map_eq_none_iff] at hget
      rw [hget]
      exact h
  | some ti =>
      rw [hti, Option.map_some] at hget
      obtain ⟨⟨tid, impl⟩, hleft, rfl⟩ := Option.map_eq_some_iff.mp hget
      rw [hleft]
      have hrest : ({ c with leaving := c.leaving.eraseIdx i } : ControlLoop).Shows
          { l with leaving := l.leaving.eraseIdx i } :=
        { h with
          leaving := by
            show (l.leaving.eraseIdx i).map Prod.snd = (c.leaving.eraseIdx i).map Topic.toTopicImpl
            rw [← List.eraseIdx_map, ← List.eraseIdx_map, h.leaving] }
      rw [hti] at hup
      exact hrest.unregisterSelf ((unregisterSelf_ctlState _ ti).symm.trans hup) ti

/-! ## What `tick` sends

Keepalives of a record are the link's own; everything else is a transaction that
is gone. -/

/-- The operation, if the loop has sent something. -/
def sent (before after : ControlLoop) (op : ControlLink.Op) : List ControlLink.Op :=
  if after.asked = before.asked then [] else [op]

variable (P : Primitives) (conn : ConnView) {op : ControlLink.Op}

theorem Shows.silent (h : c'.Shows l) (hasked : c'.asked = c.asked) :
    c'.Shows (run (ControlLink.step P conn) l (sent c c' op)) := by
  rw [sent, if_pos hasked]
  exact h

/-- A step that the link does not see. -/
theorem Shows.unseen (h : c.Shows l) (hseen : c'.seen = c.seen) :
    c'.Shows (run (ControlLink.step P conn) l (sent c c' op)) := by
  refine (h.congr hseen).silent P conn ?_
  simp only [seen, Prod.mk.injEq] at hseen
  exact hseen.2.1

theorem Shows.spoken (h : c'.Shows (l.step P conn op)) (hasked : c'.asked = c.asked + 1) :
    c'.Shows (run (ControlLink.step P conn) l (sent c c' op)) := by
  rw [sent, if_neg (by omega)]
  exact h

theorem Shows.sendConnKeepalive (h : c.Shows l) (hfresh : c.requests.lookup c.nextTxn = none)
    (now : Instant) : (c.sendConnKeepalive now).Shows
      (run (ControlLink.step P conn) l (sent c (c.sendConnKeepalive now) .other)) := by
  have hnotes : ({ c with nextCtlKeepalive := now + c.keepalive } : ControlLoop).Shows l :=
    h.congr rfl
  unfold ControlLoop.sendConnKeepalive
  dsimp only
  split
  · exact hnotes.silent P conn rfl
  · exact (hnotes.asking_other hfresh
      (about_emptyMessage (by decide) (by decide) (by decide) h.bound) rfl).spoken P conn rfl

theorem Shows.connKeepalive (h : c.Shows l) (hfresh : c.requests.lookup c.nextTxn = none)
    (now : Instant) : (c.connKeepalive now).Shows
      (run (ControlLink.step P conn) l (sent c (c.connKeepalive now) .other)) := by
  unfold ControlLoop.connKeepalive
  split
  · exact h.silent P conn rfl
  · split
    · refine Shows.silent P conn ?_ rfl
      exact h.congr rfl
    · exact h.sendConnKeepalive P conn hfresh now

theorem Shows.discover (h : c.Shows l) (hfresh : c.requests.lookup c.nextTxn = none)
    (tid : TopicId) (full : Bool) (now clock : Instant) : (c.discover tid full now clock).Shows
      (run (ControlLink.step P conn) l (sent c (c.discover tid full now clock) .other)) := by
  unfold ControlLoop.discover
  cases hti : c.topics.lookup tid with
  | none => exact h.silent P conn rfl
  | some ti =>
      dsimp only
      split
      · exact h.silent P conn rfl
      · have hset :
            (c.setTopic tid { ti with nextDiscovery := now + kDiscoveryInterval }).Shows l :=
          h.setTopic_same hti rfl
        split
        · exact hset.silent P conn rfl
        · exact (hset.asking_other hfresh (about_message (plain_lookup _) (by decide) (by decide)
            (by decide) (by decide) h.bound 0) rfl).spoken P conn rfl

theorem Shows.requestRelay (h : c.Shows l) (hfresh : c.requests.lookup c.nextTxn = none)
    (tid : TopicId) (dev : DevId) (epoch : Option Nat) (clock : Instant) :
    (c.requestRelay tid dev epoch clock).Shows
      (run (ControlLink.step P conn) l (sent c (c.requestRelay tid dev epoch clock) .other)) := by
  have habout : ∀ a : RelayAlloc,
      about (message .relayAlloc c.nextTxn (RelayAlloc.encode a) 0) = false := fun a =>
    about_message (plain_relayAlloc a) (by decide) (by decide) (by decide) (by decide) h.bound 0
  unfold ControlLoop.requestRelay
  cases (c.topics.lookup tid).bind (·.self) with
  | none => exact h.silent P conn rfl
  | some self =>
      dsimp only
      split
      · exact h.silent P conn rfl
      · cases epoch with
        | none =>
            exact (h.asking_other hfresh
              (habout { fromDev := self, peerDev := dev, kind := .tcp }) rfl).spoken P conn rfl
        | some epoch =>
            exact (h.asking_other hfresh
              (habout { fromDev := self, peerDev := dev, kind := .udp }) rfl).spoken P conn rfl

/-- No keepalive of the topic is on its way on the link either. -/
theorem Shows.not_pending (h : c.Shows l) (hshaped : c.Shaped)
    (hnone : ¬ c.topicRequestPending tid .keepaliveOk = true) :
    ¬ (l.requests.entries.any fun e => !e.2.done && e.2.purpose = .keepalive tid) = true := by
  intro hpending
  obtain ⟨⟨txn, q⟩, hmem, hq⟩ := List.any_eq_true.mp hpending
  obtain ⟨r, hr, hsame⟩ := h.requests.lookup_some (AList.mem_lookup_iff.mpr hmem)
  obtain ⟨hdone, hpurpose⟩ := Bool.and_eq_true_iff.mp hq
  have hkeep := (hsame.keeps (hshaped txn r hr)).mpr (of_decide_eq_true hpurpose)
  refine hnone (List.any_eq_true.mpr ⟨⟨txn, r⟩, AList.mem_lookup_iff.mp hr, ?_⟩)
  dsimp only at hdone ⊢
  rw [hsame.done] at hdone
  simp [hdone, ((hshaped txn r hr).expects hkeep).1, hkeep]

/-- A topic's keepalive goes out on both. -/
theorem Shows.topicKeepalive (h : c.Shows l) (hshaped : c.Shaped) (tid : TopicId)
    (now clock : Instant) : (c.topicKeepalive tid now clock).Shows
      (run (ControlLink.step P conn) l
        (sent c (c.topicKeepalive tid now clock) (.sendKeepalive tid))) := by
  unfold ControlLoop.topicKeepalive
  cases hti : c.topics.lookup tid with
  | none => exact h.silent P conn rfl
  | some ti =>
      dsimp only
      cases hself : ti.self with
      | none => exact h.silent P conn rfl
      | some dev =>
          dsimp only
          split
          · exact h.silent P conn rfl
          · rename_i hdue
            have hpub : ti.published = true := by
              by_contra hpub
              exact hdue (by simp [hpub])
            have hquiet : ¬ c.topicRequestPending tid .keepaliveOk = true := fun hpending =>
              hdue (by rw [hpending, Bool.or_true])
            have hnone := h.not_pending hshaped hquiet
            have hsend : l.step P conn (.sendKeepalive tid) =
                l.request (.keepalive · dev) { purpose := .keepalive tid, loopOwned := true } := by
              show l.sendKeepalive tid = _
              unfold ControlLink.sendKeepalive
              rw [h.topics tid, hti]
              dsimp only [Option.map_some]
              rw [hself]
              dsimp only
              rw [if_neg]
              simpa [hpub] using hnone
            have hasks := h.request (.keepalive · dev) (fun _ => rfl) (r := {
                expect := .keepaliveOk, keepaliveFor := some tid, loopOwned := true,
                deadline := clock + kControlTimeout })
              (q := { purpose := .keepalive tid, loopOwned := true })
              ⟨rfl, rfl, rfl, iff_of_true rfl rfl, rfl⟩
            refine Shows.spoken P conn ?_ rfl
            rw [hsend]
            exact hasks.setTopic_same hti rfl

/-! ## The connection

Bytes that come and go are nothing to the link, until a whole message is taken. -/

theorem topicIds_sendConnKeepalive (c : ControlLoop) (now : Instant) :
    (c.sendConnKeepalive now).topicIds = c.topicIds := by
  unfold ControlLoop.sendConnKeepalive
  dsimp only
  split <;> rfl

/-- The connection comes up: the keepalive goes out, and the published topics
register. -/
theorem Shows.driveConnecting (h : c.Shows l) (hfresh : c.requests.lookup c.nextTxn = none)
    (now clock : Instant) (sock : SockState)
    (hup : (c.driveConnecting now clock sock).ctlState = .up) :
    (c.driveConnecting now clock sock).Shows
      (run (ControlLink.step P conn) l
        (if c.ctlState = .connecting then
          sent c (c.sendConnKeepalive now) .other ++ c.topicIds.map .reregister
        else [])) := by
  unfold ControlLoop.driveConnecting at hup ⊢
  split
  · exact h
  · rename_i hstate
    rw [if_neg hstate] at hup
    rw [if_pos (not_not.mp hstate)]
    cases sock with
    | failed => cases hup
    | connecting =>
        dsimp only at hup ⊢
        split
        · rename_i hlate
          rw [if_pos hlate] at hup
          cases hup
        · rename_i hlate
          rw [if_neg hlate] at hup
          rw [hup] at hstate
          exact absurd Ctl.noConfusion hstate
    | connected =>
        have hall :=
          (h.sendConnKeepalive P conn hfresh now).foldl_reregister clock P conn c.topicIds
        show ((c.rising.sendConnKeepalive now).topicIds.foldl (ControlLoop.reregister · clock)
          (c.rising.sendConnKeepalive now)).Shows _
        rw [rising_sendConnKeepalive, rising_foldl, run_append]
        rw [show (c.sendConnKeepalive now).rising.topicIds = c.topicIds from
          topicIds_sendConnKeepalive c now]
        exact hall.congr rfl

theorem driveDown_seen (c : ControlLoop) (now : Instant) (opened : Bool) :
    (c.driveDown now opened).seen = c.seen := by
  unfold driveDown
  split
  · rfl
  · split <;> rfl

/-- A connection that has gone down is not up. -/
theorem not_up_of_down {c : ControlLoop} {now : Instant} {p : Prop}
    (hup : (c.onControlDown now).ctlState = .up) : p := by cases hup

theorem recv_seen {got : Option Bytes} (hup : (c.recv now got).ctlState = .up) :
    (c.recv now got).seen = c.seen := by
  unfold recv at hup ⊢
  split
  · rfl
  · rename_i hstate
    rw [if_neg hstate] at hup
    cases got with
    | none => exact not_up_of_down hup
    | some bytes =>
        dsimp only at hup ⊢
        split
        · rfl
        · rename_i hbytes
          rw [if_neg hbytes] at hup
          split
          · rfl
          · rename_i hfed
            rw [if_neg hfed] at hup
            exact not_up_of_down hup

theorem checkDeadlines_seen (hup : (c.checkDeadlines now).ctlState = .up) :
    (c.checkDeadlines now).seen = c.seen := by
  unfold checkDeadlines at hup ⊢
  split
  · rename_i hlate
    rw [if_pos hlate] at hup
    exact not_up_of_down hup
  · rfl

theorem send_seen {sent : Option Nat} (hup : (c.send now sent).ctlState = .up) :
    (c.send now sent).seen = c.seen := by
  unfold send at hup ⊢
  split
  · rfl
  · rename_i hready
    rw [if_neg hready] at hup
    cases sent with
    | none => exact not_up_of_down hup
    | some n => rfl

/-- The reply that the loop takes next, if it is one of those the link knows. -/
def nextReply (c : ControlLoop) : Option CtlReply := c.ctlReader.next.1.bind replyOf

/-- The link hears the next message of the loop. -/
def Tells (c : ControlLoop) (l : ControlLink) : Prop :=
  c.nextReply.isSome = true ∧ c.nextReply = l.toNode.head?

instance (c : ControlLoop) (l : ControlLink) : Decidable (c.Tells l) :=
  inferInstanceAs (Decidable (c.nextReply.isSome = true ∧ c.nextReply = l.toNode.head?))

theorem Shows.takeMessage (h : c.Shows l) (hshaped : c.Shaped)
    (hup : (c.takeMessage now clock).ctlState = .up)
    (htold : c.Tells l ∨ ∀ msg ∈ c.ctlReader.next.1, c.Aside msg) :
    (c.takeMessage now clock).Shows
      (run (ControlLink.step P conn) l (if c.Tells l then [.hear] else [])) := by
  have htaken : ({ c with ctlReader := c.ctlReader.next.2 } : ControlLoop).Shows l := h.congr rfl
  have hstate : ¬ c.ctlState ≠ .up := by
    intro hstate
    unfold ControlLoop.takeMessage at hup
    rw [if_pos hstate] at hup
    exact hstate hup
  unfold ControlLoop.takeMessage
  rw [if_neg hstate]
  dsimp only
  by_cases htells : c.Tells l
  · rw [if_pos htells]
    obtain ⟨hsome, hhead⟩ := htells
    obtain ⟨reply, hreply⟩ := Option.isSome_iff_exists.mp hsome
    obtain ⟨msg, hmsg, hsaid⟩ := Option.bind_eq_some_iff.mp hreply
    rw [hreply] at hhead
    have hhear : l.hear = { l with toNode := l.toNode.tail }.onControlMessage reply := by
      unfold ControlLink.hear
      cases hto : l.toNode with
      | nil => rw [hto] at hhead; cases hhead
      | cons r rest =>
          rw [hto] at hhead
          cases hhead
          rfl
    rw [hmsg]
    show Shows _ l.hear
    rw [hhear]
    have hrest : ({ c with ctlReader := c.ctlReader.next.2 } : ControlLoop).Shows
        { l with toNode := l.toNode.tail } := { htaken with }
    exact hrest.onControlMessage hshaped hsaid now clock
  · rw [if_neg htells]
    have haside := htold.resolve_left htells
    cases hmsg : c.ctlReader.next.1 with
    | none => exact htaken
    | some msg =>
        have hfree : c.Aside msg := haside msg hmsg
        exact htaken.onControlMessage_aside hfree now clock

end ControlLoop

end UConnect.Node
