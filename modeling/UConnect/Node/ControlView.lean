/-
  Node/ControlView.lean --- Node/Publish as a view of the control loop.

  Source: src/api/node.cpp, the functions of Node/ControlLoop and Node/Publish.

  The two modules model the same functions.  Node/ControlLoop has every request,
  messages as bytes, and a connection that goes down and comes up again;
  Node/Publish has one connection that stays up, with the requests about
  registrations only and their messages decoded.  `Shows` says what the link of
  Node/Publish sees of the loop.  A step of the loop is a few operations of the
  link, or none (`shadow`), and keeps what the link sees; so as long as one
  connection lasts, a run of the loop is a run of the link.

  Before the connection is up the loop may work on topics that still have the
  record of an earlier one, which no link has.  The link begins where the loop
  connects.
-/
import UConnect.Node.ControlRuns
import UConnect.Node.Registrations

set_option autoImplicit false

namespace UConnect.Node

open UConnect.Foundation UConnect.Crypto UConnect.Server UConnect.Wire

namespace ControlLoop

variable {c c' : ControlLoop} {l : ControlLink} {txn : Nat} {tid : TopicId} {ti : Topic}
  {m : Bytes} {r : Request} {q : Node.Request} {now clock : Instant}

/-! ## What the link sees

The topics, the requests about registrations with their transactions, and the
two queues as the messages that are still to be heard. -/

/-- What the request is for, if it is about a registration; the link has no
others. -/
def Request.purpose (r : Request) : Option Purpose :=
  (r.registerFor.map Purpose.register).or (r.keepaliveFor.map Purpose.keepalive)

/-- The two requests are one.  All that is read of an error is whether there is
one. -/
structure Request.Same (r : Request) (q : Node.Request) : Prop where
  purpose : r.purpose = some q.purpose
  owned : q.loopOwned = r.loopOwned
  done : q.done = r.done
  error : q.error = .none ↔ r.error = ErrorCode.none.code
  reply : q.reply = (registered r.reply).map (·.devId)

/-- What the two tables hold under one transaction: the same request, none, or
in the loop's table one that the link does not have. -/
inductive Paired : Option Request → Option Node.Request → Prop
  | none : Paired none none
  | aside {r : Request} (h : r.purpose = none) : Paired (some r) none
  | same {r : Request} {q : Node.Request} (h : r.Same q) : Paired (some r) (some q)

/-- The link has the requests of the loop that are about registrations. -/
def Tables (rs : AList (fun _ : Nat => Request))
    (qs : AList (fun _ : Nat => Node.Request)) : Prop :=
  ∀ txn, Paired (rs.lookup txn) (qs.lookup txn)

/-- The link sees the loop.  Of the messages queued, those about registrations
are the ones that the server has taken from the link and the ones still on their
way. -/
structure Shows (c : ControlLoop) (l : ControlLink) : Prop where
  bound : c.nextTxn < 2 ^ 32
  nextTxn : l.nextTxn = c.nextTxn
  asked : l.asked ≤ c.asked
  hostCands : l.hostCands = c.hostCands
  topics : ∀ tid, l.topics.lookup tid = (c.topics.lookup tid).map Topic.toTopicImpl
  leaving : l.leaving.map Prod.snd = c.leaving.map Topic.toTopicImpl
  requests : Tables c.requests l.requests
  carried : ∃ served, c.queued.filter about = (served ++ l.toServer).map CtlMessage.bytes

/-! ## Requests

Two requests that are the same to both models. -/

theorem Request.Same.registers (h : r.Same q) :
    r.registerFor = some tid ↔ q.purpose = .register tid := by
  have hpurpose := h.purpose
  unfold Request.purpose at hpurpose
  cases hfor : r.registerFor with
  | none =>
      rw [hfor] at hpurpose
      cases hkeep : r.keepaliveFor with
      | none => rw [hkeep] at hpurpose; cases hpurpose
      | some tid' =>
          rw [hkeep] at hpurpose
          rw [← Option.some.inj hpurpose]
          simp
  | some tid' =>
      rw [hfor] at hpurpose
      rw [← Option.some.inj hpurpose]
      simp

theorem Request.Same.keeps (h : r.Same q) (hshaped : r.Shaped) :
    r.keepaliveFor = some tid ↔ q.purpose = .keepalive tid := by
  have hpurpose := h.purpose
  unfold Request.purpose at hpurpose
  cases hfor : r.registerFor with
  | none =>
      rw [hfor] at hpurpose
      cases hkeep : r.keepaliveFor with
      | none => rw [hkeep] at hpurpose; cases hpurpose
      | some tid' =>
          rw [hkeep] at hpurpose
          rw [← Option.some.inj hpurpose]
          simp
  | some tid' =>
      rw [hfor] at hpurpose
      rw [← Option.some.inj hpurpose, hshaped.keepaliveFor_of_register hfor]
      simp

theorem Request.purpose_eq_none :
    r.purpose = none ↔ r.registerFor = none ∧ r.keepaliveFor = none := by
  unfold Request.purpose
  simp

/-- A keepalive of a topic expects its reply. -/
theorem Request.Shaped.expects (h : r.Shaped) (hkeep : r.keepaliveFor = some tid) :
    r.expect = .keepaliveOk ∧ r.loopOwned = true := by
  have hconn : r.connKeepalive = false := by
    cases hconn : r.connKeepalive with
    | false => rfl
    | true =>
        rw [h.conn hconn] at hkeep
        cases hkeep
  have hflight : r.flight = some (.keepalive tid) := by
    unfold Request.flight
    rw [hconn, hkeep]
    rfl
  exact ⟨h.keepalive tid hflight, h.flies (Option.isSome_of_eq_some hflight)⟩

/-- What the reply to a request about a registration is. -/
theorem Request.Same.expects (h : r.Same q) (hshaped : r.Shaped) :
    r.expect = .registerOk ∨ r.expect = .keepaliveOk := by
  cases hpurpose : q.purpose with
  | register tid =>
      have hfor := h.registers.mpr hpurpose
      exact .inl (hshaped.registers (Option.isSome_of_eq_some hfor)).1
  | keepalive tid => exact .inr (hshaped.expects ((h.keeps hshaped).mpr hpurpose)).1

/-! ## Tables

The two tables of requests agree on the registrations, and the loop's has others
beside them. -/

section Tables

variable {rs : AList (fun _ : Nat => Request)} {qs : AList (fun _ : Nat => Node.Request)}

theorem Tables.insert (h : Tables rs qs) (t : Nat) (hsame : r.Same q) :
    Tables (rs.insert t r) (qs.insert t q) := by
  intro txn
  rw [lookup_insert_ite, lookup_insert_ite]
  split
  · exact .same hsame
  · exact h txn

theorem Tables.erase (h : Tables rs qs) (t : Nat) : Tables (rs.erase t) (qs.erase t) := by
  intro txn
  rw [lookup_erase_ite, lookup_erase_ite]
  split
  · exact .none
  · exact h txn

/-- A request about something else is none of the link's. -/
theorem Tables.insert_aside (h : Tables rs qs) {t : Nat} (hq : qs.lookup t = none)
    (hnone : r.purpose = none) : Tables (rs.insert t r) qs := by
  intro txn
  rw [lookup_insert_ite]
  split
  · rename_i heq
    rw [heq, hq]
    exact .aside hnone
  · exact h txn

theorem Tables.erase_aside (h : Tables rs qs) {t : Nat} (hq : qs.lookup t = none) :
    Tables (rs.erase t) qs := by
  intro txn
  rw [lookup_erase_ite]
  split
  · rename_i heq
    rw [heq, hq]
    exact .none
  · exact h txn

/-- What the loop does not have, the link does not have. -/
theorem Tables.lookup_none (h : Tables rs qs) (hr : rs.lookup txn = none) :
    qs.lookup txn = none := by
  have hpair := h txn
  rw [hr] at hpair
  cases hq : qs.lookup txn with
  | none => rfl
  | some q =>
      rw [hq] at hpair
      cases hpair

theorem Tables.lookup_aside (h : Tables rs qs) (hr : rs.lookup txn = some r)
    (hnone : r.purpose = none) : qs.lookup txn = none := by
  have hpair := h txn
  rw [hr] at hpair
  cases hq : qs.lookup txn with
  | none => rfl
  | some q =>
      rw [hq] at hpair
      cases hpair with
      | same hsame => cases hnone.symm.trans hsame.purpose

/-- A request about a registration is in both tables. -/
theorem Tables.lookup_same (h : Tables rs qs) (hr : rs.lookup txn = some r)
    (hsome : r.purpose.isSome = true) : ∃ q, qs.lookup txn = some q ∧ r.Same q := by
  have hpair := h txn
  rw [hr] at hpair
  cases hq : qs.lookup txn with
  | none =>
      rw [hq] at hpair
      cases hpair with
      | aside hnone => rw [hnone] at hsome; cases hsome
  | some q =>
      rw [hq] at hpair
      cases hpair with
      | same hsame => exact ⟨q, rfl, hsame⟩

theorem Tables.lookup_some (h : Tables rs qs) (hq : qs.lookup txn = some q) :
    ∃ r, rs.lookup txn = some r ∧ r.Same q := by
  have hpair := h txn
  rw [hq] at hpair
  cases hr : rs.lookup txn with
  | none => rw [hr] at hpair; cases hpair
  | some r =>
      rw [hr] at hpair
      cases hpair with
      | same hsame => exact ⟨r, rfl, hsame⟩

/-- A question that only requests about registrations answer has one answer in
both tables. -/
theorem Tables.any (h : Tables rs qs) {f : Request → Bool} {g : Node.Request → Bool}
    (hsame : ∀ {r q}, r.Same q → f r = g q) (haside : ∀ {r}, r.purpose = none → f r = false) :
    (qs.entries.any fun e => g e.2) = rs.entries.any fun e => f e.2 := by
  rw [Bool.eq_iff_iff, List.any_eq_true, List.any_eq_true]
  constructor
  · rintro ⟨⟨txn, q⟩, hmem, hg⟩
    obtain ⟨r, hr, heq⟩ := h.lookup_some (AList.mem_lookup_iff.mpr hmem)
    exact ⟨⟨txn, r⟩, AList.mem_lookup_iff.mp hr, (hsame heq).trans hg⟩
  · rintro ⟨⟨txn, r⟩, hmem, hf⟩
    have hr : rs.lookup txn = some r := AList.mem_lookup_iff.mpr hmem
    cases hpurpose : r.purpose with
    | none => cases (haside hpurpose).symm.trans hf
    | some purpose =>
        obtain ⟨q, hq, heq⟩ := h.lookup_same hr (Option.isSome_of_eq_some hpurpose)
        exact ⟨⟨txn, q⟩, AList.mem_lookup_iff.mp hq, (hsame heq).symm.trans hf⟩

end Tables

/-! ## Sending

A message of the link's own is sent in both, and any other takes a transaction
of the link. -/

/-- All that the link sees, as one value: where it is unchanged, the link stands
still. -/
def seen (c : ControlLoop) :=
  (c.nextTxn, c.asked, c.hostCands, c.topics, c.leaving, c.requests, c.queued)

theorem Shows.congr (h : c.Shows l) (hseen : c'.seen = c.seen) : c'.Shows l := by
  simp only [seen, Prod.mk.injEq] at hseen
  obtain ⟨hnext, hasked, hcands, htopics, hleaving, hrequests, hqueued⟩ := hseen
  obtain ⟨hbound, hnext', hasked', hcands', htopics', hleaving', hrequests', hcarried⟩ := h
  exact ⟨hnext ▸ hbound, hnext ▸ hnext', hasked ▸ hasked', hcands ▸ hcands', htopics ▸ htopics',
    hleaving ▸ hleaving', hrequests ▸ hrequests', hqueued ▸ hcarried⟩

theorem Shows.setTopic (h : c.Shows l) (tid : TopicId) (ti : Topic) :
    (c.setTopic tid ti).Shows (l.setTopic tid ti.toTopicImpl) :=
  { h with
    topics := fun tid' => by
      show (l.topics.insert tid ti.toTopicImpl).lookup tid' =
        ((c.topics.insert tid ti).lookup tid').map Topic.toTopicImpl
      rw [lookup_insert_ite, lookup_insert_ite]
      split
      · rfl
      · exact h.topics tid' }

/-- What only the loop reads of a topic may change. -/
theorem Shows.setTopic_same (h : c.Shows l) (hti : c.topics.lookup tid = some ti) {ti' : Topic}
    (hsame : ti'.toTopicImpl = ti.toTopicImpl) : (c.setTopic tid ti').Shows l :=
  { h with
    topics := fun tid' => by
      show l.topics.lookup tid' = ((c.topics.insert tid ti').lookup tid').map Topic.toTopicImpl
      rw [lookup_insert_ite]
      split
      · rename_i heq
        rw [heq, h.topics tid, hti, Option.map_some, Option.map_some, hsame]
      · exact h.topics tid' }

/-- A message about something else takes a transaction. -/
theorem Shows.other (h : c.Shows l) (hm : about m = false) :
    (c.allocTxn.queue m).Shows l.allocTxn :=
  { h with
    bound := next_allocTxn c
    nextTxn := by
      show (l.nextTxn + 1) % 2 ^ 32 = (c.nextTxn + 1) % 2 ^ 32
      rw [h.nextTxn]
    asked := Nat.succ_le_succ h.asked
    carried := by
      obtain ⟨served, hserved⟩ := h.carried
      refine ⟨served, ?_⟩
      show (c.queued ++ [m]).filter about = _
      rw [List.filter_append, hserved, List.filter_singleton, hm]
      exact List.append_nil _ }

/-- A message about a registration goes out on both. -/
theorem Shows.notify (h : c.Shows l) (said : Nat → CtlMessage) (hsaid : ∀ n, (said n).txn = n) :
    (c.allocTxn.queue (said c.nextTxn).bytes).Shows (l.notify said) :=
  { h with
    bound := next_allocTxn c
    nextTxn := by
      show (l.nextTxn + 1) % 2 ^ 32 = (c.nextTxn + 1) % 2 ^ 32
      rw [h.nextTxn]
    asked := Nat.succ_le_succ h.asked
    carried := by
      obtain ⟨served, hserved⟩ := h.carried
      have habout : about (said c.nextTxn).bytes = true :=
        about_bytes (by rw [hsaid]; exact h.bound)
      refine ⟨served, ?_⟩
      show (c.queued ++ [(said c.nextTxn).bytes]).filter about =
        (served ++ (l.toServer ++ [said l.nextTxn])).map CtlMessage.bytes
      rw [List.filter_append, hserved, List.filter_singleton, habout, h.nextTxn]
      simp only [List.map_append, List.append_assoc]
      rfl }

theorem Shows.request (h : c.Shows l) (said : Nat → CtlMessage) (hsaid : ∀ n, (said n).txn = n)
    (hsame : r.Same q) : (c.asking (said c.nextTxn).bytes r).Shows (l.request said q) :=
  { h.notify said hsaid with
    requests := by
      show Tables (c.requests.insert c.nextTxn r) (l.requests.insert l.nextTxn q)
      rw [h.nextTxn]
      exact h.requests.insert c.nextTxn hsame }

/-- A request about something else, under a transaction that is not in use. -/
theorem Shows.asking_other (h : c.Shows l) (hfresh : c.requests.lookup c.nextTxn = none)
    (hm : about m = false) (hnone : r.purpose = none) : (c.asking m r).Shows l.allocTxn :=
  { h.other hm with
    requests := h.requests.insert_aside (h.requests.lookup_none hfresh) hnone }

theorem Shows.registerMessage (h : c.Shows l) (tid : TopicId) (ti : Topic) :
    l.registerMessage tid ti.toTopicImpl = c.registerMessage tid ti := by
  unfold ControlLink.registerMessage ControlLoop.registerMessage
  rw [h.hostCands]

/-- A REGISTER goes out on both. -/
theorem Shows.register (h : c.Shows l) (hsame : r.Same q) (tid : TopicId) (ti : Topic) :
    (c.asking (message .register c.nextTxn (Register.encode (c.registerMessage tid ti))
      (registerFlags ti)) r).Shows
      (l.request (.register · (l.registerMessage tid ti.toTopicImpl)) q) := by
  rw [h.registerMessage]
  exact h.request (.register · (c.registerMessage tid ti)) (fun _ => rfl) hsame

theorem Shows.reregister (h : c.Shows l) (clock : Instant) (tid : TopicId) :
    (c.reregister clock tid).Shows (l.reregister tid) := by
  unfold ControlLoop.reregister ControlLink.reregister
  rw [h.topics tid]
  cases c.topics.lookup tid with
  | none => exact h
  | some ti =>
      dsimp only [Option.map_some]
      split
      · refine (h.setTopic tid { ti with reregistering := true }).register ?_ tid
          { ti with reregistering := true }
        exact ⟨rfl, rfl, rfl, iff_of_true rfl rfl, rfl⟩
      · exact h

theorem Shows.foldl_reregister (h : c.Shows l) (clock : Instant) (P : Primitives) (conn : ConnView)
    (ids : List TopicId) : (ids.foldl (ControlLoop.reregister · clock) c).Shows
      (run (ControlLink.step P conn) l (ids.map .reregister)) := by
  induction ids generalizing c l with
  | nil => exact h
  | cons tid ids ih => exact ih (h.reregister clock tid)

/-! ## Replies

A reply is heard in both, or it is about something else and the link hears
nothing. -/

theorem Shows.publishing (h : c.Shows l) (tid : TopicId) : l.publishing tid = c.publishing tid := by
  refine h.requests.any
    (f := fun r => !r.loopOwned && r.registerFor = some tid && r.error = ErrorCode.none.code)
    (g := fun q => !q.loopOwned && q.purpose = .register tid && q.error = .none)
    (fun hsame => ?_) (fun hnone => ?_)
  · rw [hsame.owned, decide_eq_decide.mpr hsame.registers, decide_eq_decide.mpr hsame.error]
  · rw [(Request.purpose_eq_none.mp hnone).1]
    simp

theorem Shows.removeRecord (h : c.Shows l) (tid : TopicId) (dev : DevId) :
    (c.removeRecord tid dev).Shows
      (if l.publishing tid then l else l.notify (.unregister · dev)) := by
  unfold ControlLoop.removeRecord
  rw [h.publishing]
  split
  · exact h
  · exact h.notify (.unregister · dev) fun _ => rfl

theorem Shows.applyRegister (h : c.Shows l) (tid : TopicId) (ok : RegisterOk) (now : Instant) :
    (c.applyRegister tid ok now).Shows (l.applyRegister tid ok.devId) := by
  have hnotes : ({ c with srflx := some ok.srflx } : ControlLoop).Shows l := h.congr rfl
  unfold ControlLoop.applyRegister ControlLink.applyRegister
  dsimp only
  rw [h.topics tid]
  cases c.topics.lookup tid with
  | none => exact hnotes.removeRecord tid ok.devId
  | some ti =>
      dsimp only [Option.map_some]
      split
      · exact hnotes.setTopic tid { ti with
          reregistering := false, self := some ok.devId, nextKeepalive := now + c.keepalive }
      · exact (hnotes.setTopic tid { ti with reregistering := false }).removeRecord tid ok.devId

theorem Shows.registered (h : c.Shows l) (tid : TopicId) :
    ({ c with topics := clearReregistering c.topics tid } : ControlLoop).Shows
      (l.registered (.register tid)) := by
  unfold clearReregistering modifyAt ControlLink.registered
  dsimp only
  rw [h.topics tid]
  cases c.topics.lookup tid with
  | none => exact h
  | some ti => exact h.setTopic tid { ti with reregistering := false }

theorem Shows.erase (h : c.Shows l) (txn : Nat) :
    ({ c with requests := c.requests.erase txn } : ControlLoop).Shows
      { l with requests := l.requests.erase txn } :=
  { h with requests := h.requests.erase txn }

theorem Shows.insert (h : c.Shows l) (txn : Nat) (hsame : r.Same q) :
    ({ c with requests := c.requests.insert txn r } : ControlLoop).Shows
      { l with requests := l.requests.insert txn q } :=
  { h with requests := h.requests.insert txn hsame }

/-- An error is stored for the caller that waits. -/
theorem Request.Same.failed (h : r.Same q) (code : ErrorCode) :
    ({ r with error := code.code, done := true } : Request).Same
      { q with error := code, done := true } :=
  { h with
    done := rfl
    error := errorCode_injective.eq_iff.symm }

theorem Shows.onError (h : c.Shows l) (hshaped : r.Shaped) (hq : l.requests.lookup txn = some q)
    (hsame : r.Same q) (code : ErrorCode) (clock : Instant) :
    (c.onError txn r code.code clock).Shows (l.onError txn code) := by
  unfold ControlLoop.onError ControlLink.onError
  rw [hq]
  have hfailed := hsame.failed code
  obtain ⟨purpose, owned, done, error, reply⟩ := q
  obtain rfl : owned = r.loopOwned := hsame.owned
  dsimp only
  cases purpose with
  | register tid =>
      have hfor := hsame.registers.mpr rfl
      have hagain : c.registersAgain r code.code = none := by
        unfold registersAgain
        rw [hshaped.keepaliveFor_of_register hfor]
        rfl
      have hrefused : c.refuseRegister r =
          { c with topics := clearReregistering c.topics tid } := by
        unfold refuseRegister
        rw [hfor]
      have hreg := h.registered tid
      rw [hagain]
      dsimp only
      rw [hrefused]
      split
      · exact hreg.erase txn
      · exact hreg.insert txn hfailed
  | keepalive tid =>
      have hkeep := (hsame.keeps hshaped).mpr rfl
      have hfor := hshaped.registerFor_of_keepalive hkeep
      have hrefused : c.refuseRegister r = c := by
        unfold refuseRegister
        rw [hfor]
      have howned := (hshaped.expects hkeep).2
      have hagain : c.registersAgain r code.code =
          if (code = .notFound || code = .badAuth) &&
            (l.topics.lookup tid).any fun ti => ti.published && !ti.reregistering then some tid
          else none := by
        unfold registersAgain
        rw [hkeep, h.topics tid, Option.any_map, Option.filter_some,
          decide_eq_decide.mpr errorCode_injective.eq_iff,
          decide_eq_decide.mpr errorCode_injective.eq_iff]
      dsimp only
      rw [hagain]
      by_cases hnew : ((code = .notFound || code = .badAuth) &&
          (l.topics.lookup tid).any fun ti => ti.published && !ti.reregistering) = true
      · rw [if_pos hnew]
        exact (h.erase txn).reregister clock tid
      · rw [if_neg hnew]
        dsimp only
        rw [hrefused, if_pos howned, if_pos howned]
        exact h.erase txn

/-- A message is for a request, and goes by what it expects. -/
theorem onControlMessage_eq {h : Header} {rd : Reader}
    (hdecode : Header.decode { rest := m } ctlVersion = (some h, rd))
    (htype : h.type ≠ .relayed ∧ h.type ≠ .relayOffer) (hr : c.requests.lookup h.txnId = some r)
    (now clock : Instant) :
    c.onControlMessage m now clock =
      if h.type = .error then
        (c.hearing m).onError h.txnId r
          (((Error.decode.run rd).map (·.1.code)).getD ErrorCode.badRequest.code) clock
      else if h.type ≠ r.expect then c.hearing m
      else if r.loopOwned then
        { (c.hearing m).applyReply r rd now with
          requests := ((c.hearing m).applyReply r rd now).requests.erase h.txnId }
      else
        { c.hearing m with
          requests := c.requests.insert h.txnId { r with reply := m, done := true } } := by
  unfold onControlMessage
  rw [hdecode]
  dsimp only
  rw [if_neg (by simp [htype]), hr]
  rfl

/-- The message is for none of the link's requests: it is unreadable, a
notification, or a reply to a request that is about no registration. -/
def Aside (c : ControlLoop) (m : Bytes) : Prop :=
  ∀ txn r, Names txn m → c.requests.lookup txn = some r → r.purpose = none

/-- What is for another request changes nothing that the link sees. -/
theorem Shows.onError_aside (h : c.Shows l) (hr : c.requests.lookup txn = some r)
    (hnone : r.purpose = none) (code : Nat) (clock : Instant) :
    (c.onError txn r code clock).Shows l := by
  obtain ⟨hfor, hkeep⟩ := Request.purpose_eq_none.mp hnone
  have hq := h.requests.lookup_aside hr hnone
  have hagain : c.registersAgain r code = none := by
    unfold registersAgain
    rw [hkeep]
    rfl
  have hrefused : c.refuseRegister r = c := by
    unfold refuseRegister
    rw [hfor]
  unfold ControlLoop.onError
  rw [hagain]
  dsimp only
  rw [hrefused]
  split
  · exact { h with requests := h.requests.erase_aside hq }
  · exact { h with requests := h.requests.insert_aside hq hnone }

theorem Shows.onControlMessage_aside (h : c.Shows l) (haside : c.Aside m) (now clock : Instant) :
    (c.onControlMessage m now clock).Shows l := by
  have hhears : (c.hearing m).Shows l := h.congr rfl
  cases hdecode : Header.decode { rest := m } ctlVersion with
  | mk hd rd =>
  cases hd with
  | none =>
      unfold ControlLoop.onControlMessage
      rw [hdecode]
      exact hhears
  | some hd =>
  by_cases htype : hd.type ≠ .relayed ∧ hd.type ≠ .relayOffer
  · cases hr : c.requests.lookup hd.txnId with
    | none =>
        unfold ControlLoop.onControlMessage
        rw [hdecode]
        dsimp only
        rw [if_neg (by simp [htype]), hr]
        exact hhears
    | some r =>
        have hnames : Names hd.txnId m := by
          unfold Names
          rw [hdecode]
          rfl
        have hnone := haside hd.txnId r hnames hr
        obtain ⟨hfor, hkeep⟩ := Request.purpose_eq_none.mp hnone
        have hq := h.requests.lookup_aside hr hnone
        rw [onControlMessage_eq hdecode htype hr]
        split
        · exact hhears.onError_aside hr hnone _ clock
        · split
          · exact hhears
          · split
            · have happly : ((c.hearing m).applyReply r rd now).seen = (c.hearing m).seen := by
                unfold applyReply
                rw [hkeep, hfor]
                split
                · cases KeepaliveOk.decode.run rd <;> rfl
                · rfl
              have hshows := hhears.congr happly
              exact { hshows with requests := hshows.requests.erase_aside hq }
            · exact { hhears with requests := hhears.requests.insert_aside hq hnone }
  · unfold ControlLoop.onControlMessage
    rw [hdecode]
    dsimp only
    rw [if_pos (by by_contra hnot; exact htype (by simpa using hnot))]
    exact hhears

/-- A reply that the link knows, as it is in the bytes. -/
theorem replyOf_some {reply : CtlReply} (h : replyOf m = some reply) :
    ∃ hd rd, Header.decode { rest := m } ctlVersion = (some hd, rd) ∧ hd.txnId = reply.txn ∧
      match reply with
      | .registerOk _ dev => hd.type = .registerOk ∧
          ∃ ok, RegisterOk.decode.run rd = some ok ∧ ok.1.devId = dev
      | .keepaliveOk _ => hd.type = .keepaliveOk
      | .unregisterOk _ => hd.type = .unregisterOk
      | .error _ code => hd.type = .error ∧
          code.code = ((Error.decode.run rd).map (·.1.code)).getD ErrorCode.badRequest.code := by
  unfold replyOf at h
  cases hdecode : Header.decode { rest := m } ctlVersion with
  | mk hd rd =>
  rw [hdecode] at h
  cases hd with
  | none => cases h
  | some hd =>
      refine ⟨hd, rd, rfl, ?_⟩
      dsimp only at h
      split at h
      · rename_i htype
        obtain ⟨ok, hok, rfl⟩ := Option.map_eq_some_iff.mp h
        exact ⟨rfl, htype, ok, hok, rfl⟩
      · split at h
        · rename_i htype
          cases h
          exact ⟨rfl, htype⟩
        · split at h
          · rename_i htype
            cases h
            exact ⟨rfl, htype⟩
          · split at h
            · rename_i htype
              obtain ⟨code, hcode, rfl⟩ := Option.map_eq_some_iff.mp h
              exact ⟨rfl, htype, code_of_errorOf hcode⟩
            · cases h

/-- A reply to a request that the link does not have is nothing to it. -/
theorem onControlMessage_unknown {reply : CtlReply} (hnone : l.requests.lookup reply.txn = none) :
    l.onControlMessage reply = l := by
  cases reply with
  | registerOk txn dev | keepaliveOk txn | error txn code =>
      have hlookup : l.requests.lookup txn = none := hnone
      simp only [ControlLink.onControlMessage, ControlLink.onError, hlookup]
  | unregisterOk txn => rfl

/-- A REGISTER of the loop is answered. -/
theorem Shows.applyReply (h : c.Shows l) (hshaped : r.Shaped) (hfor : r.registerFor = some tid)
    {rd : Reader} {ok : RegisterOk × Reader} (hok : RegisterOk.decode.run rd = some ok)
    (now : Instant) :
    (c.applyReply r rd now).Shows (l.applyRegister tid ok.1.devId) := by
  unfold ControlLoop.applyReply
  rw [if_neg (hshaped.quiet hfor), hfor]
  dsimp only
  rw [hok]
  exact h.applyRegister tid ok.1 now

section Hearing

variable {hd : Header} {rd : Reader}

/-- The reply to a keepalive: the request is forgotten on both. -/
theorem Shows.hears_keepaliveOk (h : c.Shows l)
    (hdecode : Header.decode { rest := m } ctlVersion = (some hd, rd))
    (htype : hd.type = .keepaliveOk) (hr : c.requests.lookup hd.txnId = some r)
    (hshaped : r.Shaped) (hq : l.requests.lookup hd.txnId = some q) (hsame : r.Same q)
    (now clock : Instant) :
    (c.onControlMessage m now clock).Shows (l.onControlMessage (.keepaliveOk hd.txnId)) := by
  have hhears : (c.hearing m).Shows l := h.congr rfl
  rw [onControlMessage_eq hdecode (by rw [htype]; decide) hr, htype, if_neg (by decide)]
  unfold ControlLink.onControlMessage
  dsimp only
  rw [hq]
  obtain ⟨purpose, owned, done, error, reply⟩ := q
  cases purpose with
  | register tid =>
      have hfor := hsame.registers.mpr rfl
      have hexpect := (hshaped.registers (Option.isSome_of_eq_some hfor)).1
      rw [if_pos (by rw [hexpect]; decide)]
      exact hhears
  | keepalive tid =>
      have hkeep := (hsame.keeps hshaped).mpr rfl
      obtain ⟨hexpect, howned⟩ := hshaped.expects hkeep
      rw [if_neg (not_not.mpr hexpect.symm), if_pos howned]
      have hseen : ((c.hearing m).applyReply r rd now).seen = (c.hearing m).seen := by
        unfold ControlLoop.applyReply
        rw [hkeep]
        cases KeepaliveOk.decode.run rd <;> rfl
      exact (hhears.congr hseen).erase hd.txnId

/-- The reply to a REGISTER: the loop applies its own, a caller's is stored. -/
theorem Shows.hears_registerOk (h : c.Shows l)
    (hdecode : Header.decode { rest := m } ctlVersion = (some hd, rd))
    (htype : hd.type = .registerOk) {ok : RegisterOk × Reader}
    (hok : RegisterOk.decode.run rd = some ok) (hr : c.requests.lookup hd.txnId = some r)
    (hshaped : r.Shaped) (hq : l.requests.lookup hd.txnId = some q) (hsame : r.Same q)
    (now clock : Instant) :
    (c.onControlMessage m now clock).Shows
      (l.onControlMessage (.registerOk hd.txnId ok.1.devId)) := by
  have hhears : (c.hearing m).Shows l := h.congr rfl
  rw [onControlMessage_eq hdecode (by rw [htype]; decide) hr, htype, if_neg (by decide)]
  unfold ControlLink.onControlMessage
  dsimp only
  rw [hq]
  obtain ⟨purpose, owned, done, error, reply⟩ := q
  obtain rfl : owned = r.loopOwned := hsame.owned
  cases purpose with
  | keepalive tid =>
      have hkeep := (hsame.keeps hshaped).mpr rfl
      rw [if_pos (by rw [(hshaped.expects hkeep).1]; decide)]
      exact hhears
  | register tid =>
      have hfor := hsame.registers.mpr rfl
      have hexpect := (hshaped.registers (Option.isSome_of_eq_some hfor)).1
      rw [if_neg (not_not.mpr hexpect.symm)]
      dsimp only
      split
      · exact (hhears.applyReply hshaped hfor hok now).erase hd.txnId
      · refine hhears.insert hd.txnId ⟨hsame.purpose, rfl, rfl, hsame.error, ?_⟩
        show some ok.1.devId = (ControlLoop.registered m).map (·.devId)
        unfold ControlLoop.registered
        rw [hdecode]
        dsimp only
        rw [hok]
        rfl

/-- Nothing waits for the reply to an UNREGISTER. -/
theorem Shows.hears_unregisterOk (h : c.Shows l)
    (hdecode : Header.decode { rest := m } ctlVersion = (some hd, rd))
    (htype : hd.type = .unregisterOk) (hr : c.requests.lookup hd.txnId = some r)
    (hshaped : r.Shaped) (hsame : r.Same q) (now clock : Instant) :
    (c.onControlMessage m now clock).Shows l := by
  rw [onControlMessage_eq hdecode (by rw [htype]; decide) hr, htype, if_neg (by decide), if_pos]
  · exact h.congr rfl
  · rcases hsame.expects hshaped with hexpect | hexpect
    · rw [hexpect]; decide
    · rw [hexpect]; decide

end Hearing

/-- The link hears what the loop hears. -/
theorem Shows.onControlMessage (h : c.Shows l) (hshaped : c.Shaped) {reply : CtlReply}
    (hreply : replyOf m = some reply) (now clock : Instant) :
    (c.onControlMessage m now clock).Shows (l.onControlMessage reply) := by
  obtain ⟨hd, rd, hdecode, htxn, hbody⟩ := replyOf_some hreply
  cases hq : l.requests.lookup reply.txn with
  | none =>
      -- the message is for another request, or for none
      rw [onControlMessage_unknown hq]
      refine h.onControlMessage_aside (fun t r ht hr => ?_) now clock
      have hsame : t = reply.txn := by
        unfold Names at ht
        rw [hdecode] at ht
        exact (Option.some.inj ht).symm.trans htxn
      rw [hsame] at hr
      cases hpurpose : r.purpose with
      | none => rfl
      | some purpose =>
          obtain ⟨q, hq', -⟩ := h.requests.lookup_same hr (Option.isSome_of_eq_some hpurpose)
          cases hq.symm.trans hq'
  | some q =>
      obtain ⟨r, hr, hsame⟩ := h.requests.lookup_some hq
      have hshapedR := hshaped _ r hr
      rw [← htxn] at hr hq
      cases reply with
      | registerOk txn dev =>
          obtain ⟨htype, ok, hok, rfl⟩ := hbody
          obtain rfl : hd.txnId = txn := htxn
          exact h.hears_registerOk hdecode htype hok hr hshapedR hq hsame now clock
      | keepaliveOk txn =>
          obtain rfl : hd.txnId = txn := htxn
          exact h.hears_keepaliveOk hdecode hbody hr hshapedR hq hsame now clock
      | unregisterOk txn => exact h.hears_unregisterOk hdecode hbody hr hshapedR hsame now clock
      | error txn code =>
          obtain rfl : hd.txnId = txn := htxn
          have hhears : (c.hearing m).Shows l := h.congr rfl
          rw [onControlMessage_eq hdecode (by rw [hbody.1]; decide) hr, if_pos hbody.1, ← hbody.2]
          exact hhears.onError hshapedR hq hsame code clock

end ControlLoop

end UConnect.Node
