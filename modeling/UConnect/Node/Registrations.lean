/-
  Node/Registrations.lean --- no registration is left behind.

  What the node's calls and its loop do to the books of `Node/ControlBooks`, and
  from that the result over whole runs: once everything has come to rest, a
  topic that is not published has no record.  A call that gives up when its
  reply is already there drops it, and with it the only one that knew of the
  record; every other way to give up is fine.
-/
import UConnect.Foundation.Run
import UConnect.Node.ControlBooks

set_option autoImplicit false

namespace UConnect.Node.ControlLink

open UConnect.Foundation UConnect.Crypto UConnect.Server

variable {P : Primitives} {conn : ConnView} {secret : SymKey} {l l' : ControlLink}

/-! ## The node

What its calls do to the books. -/

/-- Topics move; whoever answered for a record through one still has someone to. -/
theorem Covered.reseat {tid : TopicId} (h : l.Covered P conn secret tid)
    {topics : AList (fun _ : TopicId => TopicImpl)} {leaving : List (TopicId × TopicImpl)}
    (hpub : ∀ ti, l.topics.lookup tid = some ti → ti.published = true →
      ti.self = some (devOf P conn secret tid) →
      { l with topics := topics, leaving := leaving }.Covered P conn secret tid)
    (hleave : ∀ ti, (tid, ti) ∈ l.leaving → ti.self = some (devOf P conn secret tid) →
      { l with topics := topics, leaving := leaving }.Covered P conn secret tid) :
    { l with topics := topics, leaving := leaving }.Covered P conn secret tid := by
  cases h with
  | unregistering hin => exact .unregistering hin
  | registering hin hid => exact .registering hin hid
  | granted hin hy => exact .granted hin hy
  | answered hreq hfor howned hdone herror => exact .answered hreq hfor howned hdone herror
  | published htopic hp hself => exact hpub _ htopic hp hself
  | leaving hin hself => exact hleave _ hin hself

/-- The books speak of messages and requests only, so the topics may be changed
under them. -/
theorem Books.reseat (h : l.Books P conn secret) (topics : AList (fun _ : TopicId => TopicImpl))
    (leaving : List (TopicId × TopicImpl)) :
    { l with topics := topics, leaving := leaving }.Books P conn secret :=
  ⟨h.secret_eq, h.next, h.sent, h.told, h.known, h.once, h.asks, h.fits, h.pending, h.stored,
    h.own, h.order⟩

/-- The topics may be changed under the invariant, as long as those somebody is
publishing stay joined and every topic the server has a record for stays
covered. -/
theorem Inv.reseat (h : l.Inv P conn secret) {topics : AList (fun _ : TopicId => TopicImpl)}
    {leaving : List (TopicId × TopicImpl)}
    (hjoined : ∀ t req tid, l.requests.lookup t = some req → req.purpose = .register tid →
      req.loopOwned = false → (topics.lookup tid).isSome = true)
    (hpub : ∀ tid ti, l.topics.lookup tid = some ti → ti.published = true →
      ti.self = some (devOf P conn secret tid) →
      { l with topics := topics, leaving := leaving }.Covered P conn secret tid)
    (hleave : ∀ tid ti, (tid, ti) ∈ l.leaving → ti.self = some (devOf P conn secret tid) →
      { l with topics := topics, leaving := leaving }.Covered P conn secret tid) :
    { l with topics := topics, leaving := leaving }.Inv P conn secret :=
  ⟨h.books.reseat topics leaving, hjoined,
    fun tid hheld => (h.covered tid hheld).reseat (hpub tid) (hleave tid)⟩

/-- A record stays accounted for when its topic is rewritten, if what the topic
remembers of a registration that stands is kept. -/
theorem Covered.setTopic {tid tid' : TopicId} (h : l.Covered P conn secret tid') {ti : TopicImpl}
    (hkeep : ∀ ti₀, l.topics.lookup tid = some ti₀ → ti₀.published = true →
      ti₀.self = some (devOf P conn secret tid) →
      ti.published = true ∧ ti.self = some (devOf P conn secret tid)) :
    (l.setTopic tid ti).Covered P conn secret tid' := by
  refine h.reseat (fun ti' htopic hpub hself => ?_) fun ti' hin hself => .leaving hin hself
  rcases Decidable.em (tid' = tid) with rfl | hne
  · obtain ⟨hpub', hself'⟩ := hkeep ti' htopic hpub hself
    exact .published (AList.lookup_insert _) hpub' hself'
  · exact .published ((AList.lookup_insert_ne hne).trans htopic) hpub hself

/-- Joining a topic takes away none that a caller is publishing. -/
theorem joined_insert {requests : AList (fun _ : Nat => Request)}
    {topics : AList (fun _ : TopicId => TopicImpl)}
    (h : ∀ t req tid, requests.lookup t = some req → req.purpose = .register tid →
      req.loopOwned = false → (topics.lookup tid).isSome = true) (tid : TopicId) (ti : TopicImpl) :
    ∀ t req tid', requests.lookup t = some req → req.purpose = .register tid' →
      req.loopOwned = false → ((topics.insert tid ti).lookup tid').isSome = true := by
  intro t req tid' hreq hfor howned
  rcases Decidable.em (tid' = tid) with rfl | hne
  · rw [AList.lookup_insert]
    rfl
  · rw [AList.lookup_insert_ne hne]
    exact h t req tid' hreq hfor howned

/-- A topic is written back with what it knows of its record. -/
theorem Inv.setTopic (h : l.Inv P conn secret) {tid : TopicId} {ti : TopicImpl}
    (hkeep : ∀ ti₀, l.topics.lookup tid = some ti₀ → ti₀.published = true →
      ti₀.self = some (devOf P conn secret tid) →
      ti.published = true ∧ ti.self = some (devOf P conn secret tid)) :
    (l.setTopic tid ti).Inv P conn secret := by
  refine ⟨h.books.reseat _ _, joined_insert h.joined tid ti, fun tid' hheld => ?_⟩
  exact (h.covered tid' hheld).setTopic hkeep

/-- Another message queued behind those on their way takes away nothing that
covers a record. -/
theorem Covered.notify {tid : TopicId} (h : l.Covered P conn secret tid) (dev : DevId) :
    (l.notify (.unregister · dev)).Covered P conn secret tid := by
  cases h with
  | unregistering hin => exact .unregistering (List.mem_append_left _ hin)
  | registering hin hid => exact .registering (List.mem_append_left _ hin) hid
  | granted hin hy => exact .granted hin hy
  | answered hreq hfor howned hdone herror => exact .answered hreq hfor howned hdone herror
  | published htopic hp hself => exact .published htopic hp hself
  | leaving hin hself => exact .leaving hin hself

/-- `notify` keeps the invariant. -/
theorem Inv.notify (h : l.Inv P conn secret) (hroom : l.asked < 2 ^ 32) (dev : DevId) :
    (l.notify (.unregister · dev)).Inv P conn secret :=
  ⟨h.books.notify hroom dev, h.joined, fun tid hheld => (h.covered tid hheld).notify dev⟩

/-- A transaction taken by a message about something else takes nothing away. -/
theorem Covered.alloc {tid : TopicId} (h : l.Covered P conn secret tid) :
    l.allocTxn.Covered P conn secret tid := by
  cases h with
  | unregistering hin => exact .unregistering hin
  | registering hin hid => exact .registering hin hid
  | granted hin hy => exact .granted hin hy
  | answered hreq hfor howned hdone herror => exact .answered hreq hfor howned hdone herror
  | published htopic hp hself => exact .published htopic hp hself
  | leaving hin hself => exact .leaving hin hself

theorem Inv.alloc (h : l.Inv P conn secret) : l.allocTxn.Inv P conn secret :=
  ⟨h.books.alloc, h.joined, fun tid hheld => (h.covered tid hheld).alloc⟩

/-- `request` keeps the invariant when its message and its request match and the
transaction is new. -/
theorem Inv.request (h : l.Inv P conn secret) (hroom : l.asked < 2 ^ 32)
    {message : Nat → CtlMessage} {req : Request}
    (htxn : (message l.nextTxn).txn = l.nextTxn) (hasks : Asks (some req) (message l.nextTxn))
    (hdone : req.done = false) (herror : req.error = .none)
    (hjoined : ∀ tid, req.purpose = .register tid → req.loopOwned = false →
      (l.topics.lookup tid).isSome = true) :
    (l.request message req).Inv P conn secret := by
  have hold : ∀ t, t ≠ l.nextTxn →
      (l.request message req).requests.lookup t = l.requests.lookup t :=
    fun t ht => AList.lookup_insert_ne ht
  refine ⟨h.books.request hroom htxn hasks hdone herror, ?_, ?_⟩
  · intro t q tid hq hfor howned
    rcases Decidable.em (t = l.nextTxn) with rfl | hne
    · cases (AList.lookup_insert _).symm.trans hq
      exact hjoined tid hfor howned
    · exact h.joined t q tid ((hold t hne).symm.trans hq) hfor howned
  · intro tid hheld
    cases h.covered tid hheld with
    | unregistering hin => exact .unregistering (List.mem_append_left _ hin)
    | registering hin hid => exact .registering (List.mem_append_left _ hin) hid
    | granted hin hy =>
        refine .granted hin ?_
        rw [hold _ ((h.books.told _ hin).ne_next hroom)]
        exact hy
    | answered hreq hfor howned hd herr =>
        have hsame := (hold _ ((h.books.known _ _ hreq).ne_next hroom)).trans hreq
        exact .answered hsame hfor howned hd herr
    | published htopic hp hself => exact .published htopic hp hself
    | leaving hin hself => exact .leaving hin hself

/-- `unregister_self` keeps the invariant: it is `notify` for the record the
topic remembers, or nothing. -/
theorem Inv.unregisterSelf (h : l.Inv P conn secret) (ti : TopicImpl) :
    (l.unregisterSelf ti).asked ≤ 2 ^ 32 → (l.unregisterSelf ti).Inv P conn secret := by
  unfold ControlLink.unregisterSelf
  split
  · exact fun _ => h
  · exact fun hroom => h.notify hroom _

/-- The record a topic knows of is about to be removed. -/
theorem mem_unregisterSelf {ti : TopicImpl} {dev : DevId} (h : ti.self = some dev) :
    ∃ t, .unregister t dev ∈ (l.unregisterSelf ti).toServer := by
  unfold ControlLink.unregisterSelf
  rw [h]
  exact ⟨l.nextTxn, List.mem_append_right _ (List.mem_singleton_self _)⟩

theorem unregisterSelf_fields (l : ControlLink) (ti : TopicImpl) :
    (l.unregisterSelf ti).topics = l.topics ∧ (l.unregisterSelf ti).leaving = l.leaving ∧
      (l.unregisterSelf ti).requests = l.requests := by
  unfold ControlLink.unregisterSelf
  split
  · exact ⟨rfl, rfl, rfl⟩
  · exact ⟨rfl, rfl, rfl⟩

/-- Joining adds a topic with nothing published, or finds it joined. -/
theorem Inv.join (h : l.Inv P conn secret) (tid : TopicId) (keyed : Bool) :
    (l.join tid keyed).Inv P conn secret := by
  unfold ControlLink.join
  split
  · exact h
  · rename_i hnone
    refine h.setTopic fun ti₀ hti => ?_
    rw [hnone] at hti
    cases hti

/-- `publish` up to its wait.  The topic's own record is not touched: a
registration that stands is covered as it was. -/
theorem Inv.publish (h : l.Inv P conn secret) (tid : TopicId) («meta» : Bytes) (unlisted : Bool) :
    (l.publish tid «meta» unlisted).asked ≤ 2 ^ 32 →
      (l.publish tid «meta» unlisted).Inv P conn secret := by
  unfold ControlLink.publish
  split
  · exact fun _ => h
  · rename_i ti hti
    intro hroom
    have hset : (l.setTopic tid { ti with «meta» := «meta», unlisted := unlisted }).Inv
        P conn secret := by
      refine h.setTopic fun ti₀ hti₀ hpub hself => ?_
      rw [hti] at hti₀
      cases hti₀
      exact ⟨hpub, hself⟩
    refine hset.request hroom rfl ⟨_, rfl, rfl, rfl, rfl⟩ rfl rfl fun tid' hfor _ => ?_
    cases hfor
    show ((l.topics.insert tid _).lookup tid).isSome = true
    rw [AList.lookup_insert]
    rfl

/-- Unpublishing forgets the record only together with the message that removes
it, which covers the record in its place. -/
theorem Inv.unpublish (h : l.Inv P conn secret) (tid : TopicId) :
    (l.unpublish tid).asked ≤ 2 ^ 32 → (l.unpublish tid).Inv P conn secret := by
  unfold ControlLink.unpublish
  split
  · exact fun _ => h
  · rename_i ti hti
    intro hroom
    have hsent := h.unregisterSelf ti hroom
    obtain ⟨htopics, -, -⟩ := unregisterSelf_fields l ti
    refine hsent.reseat (joined_insert hsent.joined tid _) ?_ fun tid' ti' hin hself => .leaving hin hself
    · intro tid' ti' htopic hpub hself
      rcases Decidable.em (tid' = tid) with rfl | hne
      · rw [htopics, hti] at htopic
        cases htopic
        obtain ⟨t, ht⟩ := mem_unregisterSelf (l := l) hself
        exact .unregistering ht
      · exact .published ((AList.lookup_insert_ne hne).trans htopic) hpub hself

theorem mem_entries_of_lookup {t : Nat} {req : Request} (h : l.requests.lookup t = some req) :
    (⟨t, req⟩ : Σ _ : Nat, Request) ∈ l.requests.entries := AList.mem_lookup_iff.mp h

/-- The first half of `leave`: the topic is moved out of the map with all it
remembers.  No call of `publish` is active for it then. -/
theorem Inv.leave (h : l.Inv P conn secret) (tid : TopicId) : (l.leave tid).Inv P conn secret := by
  unfold ControlLink.leave
  split
  · exact h
  · rename_i ti hti
    split
    · exact h
    · rename_i hidle
      refine h.reseat ?_ ?_ fun tid' ti' hin hself => .leaving (List.mem_append_left _ hin) hself
      · intro t req tid' hreq hfor howned
        have hne : tid' ≠ tid := by
          rintro rfl
          refine hidle (List.any_eq_true.mpr ⟨_, mem_entries_of_lookup hreq, ?_⟩)
          simp [hfor, howned]
        rw [AList.lookup_erase_ne hne]
        exact h.joined t req tid' hreq hfor howned
      · intro tid' ti' htopic hpub hself
        rcases Decidable.em (tid' = tid) with rfl | hne
        · rw [hti] at htopic
          cases htopic
          exact .leaving (List.mem_append_right _ (List.mem_singleton_self _)) hself
        · exact .published ((AList.lookup_erase_ne hne).trans htopic) hpub hself

/-- The second half, after the lock was given up: the `Unregister` for the topic
moved out. -/
theorem Inv.leaveRest (h : l.Inv P conn secret) (i : Nat) :
    (l.leaveRest i).asked ≤ 2 ^ 32 → (l.leaveRest i).Inv P conn secret := by
  unfold ControlLink.leaveRest
  split
  · exact fun _ => h
  · rename_i tid₀ ti hti
    intro hroom
    obtain ⟨htopics, hleaving, hrequests⟩ := unregisterSelf_fields l ti
    have hswap : { l with leaving := l.leaving.eraseIdx i }.unregisterSelf ti =
        { l.unregisterSelf ti with
          topics := (l.unregisterSelf ti).topics
          leaving := l.leaving.eraseIdx i } := by
      unfold ControlLink.unregisterSelf
      split <;> rfl
    rw [hswap] at hroom ⊢
    have hsent := h.unregisterSelf ti hroom
    refine hsent.reseat hsent.joined (fun tid ti' htopic => .published htopic) ?_
    intro tid ti' hin hself
    rw [hleaving] at hin
    obtain ⟨k, hk⟩ := List.mem_iff_getElem?.mp hin
    rcases Decidable.em (k = i) with rfl | hne
    · rw [hti] at hk
      cases hk
      obtain ⟨t, ht⟩ := mem_unregisterSelf (l := l) hself
      exact .unregistering ht
    · exact .leaving (List.mem_eraseIdx_iff_getElem?.mpr ⟨k, hne, hk⟩) hself

/-- A topic's keepalive registers nothing, so it neither adds to the records nor
to what covers them. -/
theorem Inv.sendKeepalive (h : l.Inv P conn secret) (tid : TopicId) :
    (l.sendKeepalive tid).asked ≤ 2 ^ 32 → (l.sendKeepalive tid).Inv P conn secret := by
  unfold ControlLink.sendKeepalive
  split
  · exact fun _ => h
  split
  · exact fun _ => h
  split
  · exact fun _ => h
  · intro hroom
    refine h.request hroom rfl ?_ rfl rfl fun tid' hfor => nomatch hfor
    intro req hreq
    cases hreq
    exact ⟨⟨tid, rfl⟩, rfl⟩

/-- Registering again asks for the record that the topic remembers. -/
theorem Inv.reregister (h : l.Inv P conn secret) (tid : TopicId) :
    (l.reregister tid).asked ≤ 2 ^ 32 → (l.reregister tid).Inv P conn secret := by
  unfold ControlLink.reregister
  split
  · exact fun _ => h
  · rename_i ti hti
    split
    · intro hroom
      have hset : (l.setTopic tid { ti with reregistering := true }).Inv P conn secret := by
        refine h.setTopic fun ti₀ hti₀ hpub hself => ?_
        rw [hti] at hti₀
        cases hti₀
        exact ⟨hpub, hself⟩
      exact hset.request hroom rfl ⟨_, rfl, rfl, rfl, rfl⟩ rfl rfl
        fun tid' _ howned => nomatch howned
    · exact fun _ => h

/-! ## Replies

What the loop does when it hears. -/

/-- Once a reply is taken, whoever answered for a record still does, unless the
reply was the only one to tell of it. -/
theorem Inv.covered_settle (h : l.Inv P conn secret) {r : CtlReply} {rest : List CtlReply}
    (hto : l.toNode = r :: rest) {requests : AList (fun _ : Nat => Request)}
    (hother : ∀ t, t ≠ r.txn → requests.lookup t = l.requests.lookup t) {tid : TopicId}
    (hheld : l.Held conn tid) :
    { l with toNode := rest, requests := requests }.Covered P conn secret tid ∨
      Grant (l.requests.lookup r.txn) tid r := by
  have honce := h.books.once
  rw [hto, List.map_cons, List.cons_append, List.nodup_cons] at honce
  have hhead : r ∈ l.toNode := by
    rw [hto]
    exact List.mem_cons_self
  cases h.covered tid hheld with
  | unregistering hin => exact Or.inl (.unregistering hin)
  | registering hin hid => exact Or.inl (.registering hin hid)
  | @granted y hin hy =>
      rw [hto] at hin
      rcases List.mem_cons.mp hin with rfl | hin
      · exact Or.inr hy
      · have hne : y.txn ≠ r.txn := by
          intro heq
          exact honce.1 (List.mem_append_left _ (heq ▸ List.mem_map_of_mem hin))
        refine Or.inl (.granted hin ?_)
        simp only [hother _ hne]
        exact hy
  | @answered t req hreq hfor howned hdone herror =>
      have hne : t ≠ r.txn := by
        rintro rfl
        rw [h.books.not_done_of_told hhead hreq hfor] at hdone
        cases hdone
      exact Or.inl (.answered ((hother t hne).trans hreq) hfor howned hdone herror)
  | published htopic hp hself => exact Or.inl (.published htopic hp hself)
  | leaving hin hself => exact Or.inl (.leaving hin hself)

/-- A reply is taken that tells of no record. -/
theorem Inv.settle (h : l.Inv P conn secret) {r : CtlReply} {rest : List CtlReply}
    (hto : l.toNode = r :: rest) {requests : AList (fun _ : Nat => Request)}
    (hother : ∀ t, t ≠ r.txn → requests.lookup t = l.requests.lookup t)
    (hown : ∀ req tid, requests.lookup r.txn = some req → req.purpose = .register tid →
      req.done = true ∧ req.loopOwned = false ∧
        (req.error = .none → req.reply = some (devOf P conn secret tid)))
    (hjoined : ∀ req tid, requests.lookup r.txn = some req → req.purpose = .register tid →
      (l.topics.lookup tid).isSome = true)
    (hcover : ∀ tid, l.Held conn tid → Grant (l.requests.lookup r.txn) tid r →
      { l with toNode := rest, requests := requests }.Covered P conn secret tid) :
    { l with toNode := rest, requests := requests }.Inv P conn secret := by
  refine ⟨h.books.settle hto hother hown, ?_, fun tid hheld => ?_⟩
  · intro t req tid hreq hfor howned
    rcases Decidable.em (t = r.txn) with rfl | hne
    · exact hjoined req tid hreq hfor
    · exact h.joined t req tid ((hother t hne).symm.trans hreq) hfor howned
  · rcases h.covered_settle hto hother hheld with hc | hgrant
    · exact hc
    · exact hcover tid hheld hgrant

/-- Clearing the mark of a re-registration changes no topic's own record. -/
theorem Inv.registered (h : l.Inv P conn secret) (purpose : Purpose) :
    (l.registered purpose).Inv P conn secret := by
  unfold ControlLink.registered
  split
  · exact h
  split
  · exact h
  · rename_i ti hti
    refine h.setTopic fun ti₀ hti₀ hpub hself => ?_
    rw [hti] at hti₀
    cases hti₀
    exact ⟨hpub, hself⟩

/-- The flag that `registered` clears is no part of the requests. -/
theorem registered_requests (l : ControlLink) (purpose : Purpose) :
    (l.registered purpose).requests = l.requests := by
  unfold ControlLink.registered
  split
  · rfl
  · split <;> rfl

theorem registered_with (l : ControlLink) (purpose : Purpose)
    (requests : AList (fun _ : Nat => Request)) :
    { l.registered purpose with requests := requests } =
      { l with requests := requests }.registered purpose := by
  cases purpose with
  | keepalive tid => rfl
  | register tid =>
      unfold ControlLink.registered
      cases hlook : l.topics.lookup tid with
      | none => simp only [hlook]
      | some ti =>
          simp only [hlook]
          rfl

/-- A request erased. -/
theorem lookup_erase_of_ne (requests : AList (fun _ : Nat => Request)) (t : Nat) :
    ∀ t', t' ≠ t → (requests.erase t).lookup t' = requests.lookup t' :=
  fun _ hne => AList.lookup_erase_ne hne

/-- A reply is taken off the way and its request erased.  What is left to show
is that the record it may have granted is covered without it. -/
theorem Inv.settle_erase (h : l.Inv P conn secret) {r : CtlReply} {rest : List CtlReply}
    (hto : l.toNode = r :: rest)
    (hcover : ∀ tid, l.Held conn tid → Grant (l.requests.lookup r.txn) tid r →
      { l with toNode := rest, requests := l.requests.erase r.txn }.Covered P conn secret tid) :
    { l with toNode := rest, requests := l.requests.erase r.txn }.Inv P conn secret := by
  refine h.settle hto (lookup_erase_of_ne _ _) ?_ ?_ hcover
  · intro req tid hreq
    rw [AList.lookup_erase] at hreq
    cases hreq
  · intro req tid hreq
    rw [AList.lookup_erase] at hreq
    cases hreq

/-- A reply nobody waits for. -/
theorem Inv.settle_none (h : l.Inv P conn secret) {r : CtlReply} {rest : List CtlReply}
    (hto : l.toNode = r :: rest) (hnone : l.requests.lookup r.txn = none) :
    { l with toNode := rest }.Inv P conn secret := by
  refine h.settle hto (fun _ _ => rfl) ?_ ?_ ?_
  · intro req tid hreq
    rw [hnone] at hreq
    cases hreq
  · intro req tid hreq
    rw [hnone] at hreq
    cases hreq
  · rintro tid - ⟨-, req, hreq, -⟩
    rw [hnone] at hreq
    cases hreq

/-- An error grants nothing; the request is erased or kept failed for its
caller. -/
theorem Inv.hear_error (h : l.Inv P conn secret) {t : Nat} {code : ErrorCode}
    {rest : List CtlReply} (hto : l.toNode = .error t code :: rest)
    (hroom : ({ l with toNode := rest }.onError t code).asked ≤ 2 ^ 32) :
    ({ l with toNode := rest }.onError t code).Inv P conn secret := by
  have hfits := h.books.fits (.error t code) (by rw [hto]; exact List.mem_cons_self)
  have hno : ∀ tid, l.Held conn tid → Grant (l.requests.lookup t) tid (.error t code) →
      { l with toNode := rest, requests := l.requests.erase t }.Covered P conn secret tid := by
    rintro tid - ⟨⟨t', dev, hform⟩, -⟩
    cases hform
  have herase := h.settle_erase hto hno
  revert hroom
  unfold ControlLink.onError
  cases hreq : l.requests.lookup t with
  | none =>
      exact fun _ => h.settle_none hto hreq
  | some req =>
      simp only
      split
      · exact herase.reregister _
      · refine fun _ => ?_
        split
        · rw [registered_with, registered_requests]
          exact herase.registered _
        · rename_i howned
          have hdone : ∀ q tid, (l.requests.insert t { req with error := code, done := true }).lookup
              t = some q → q.purpose = .register tid → q.done = true ∧ q.loopOwned = false ∧
                (q.error = .none → q.reply = some (devOf P conn secret tid)) := by
            intro q tid hq hfor
            cases (AList.lookup_insert _).symm.trans hq
            exact ⟨rfl, Bool.not_eq_true _ ▸ howned, fun herr => absurd herr hfits.1⟩
          have hset : { l with
              toNode := rest
              requests := l.requests.insert t { req with error := code, done := true } }.Inv
                P conn secret := by
            refine h.settle hto (fun t' hne => AList.lookup_insert_ne hne) hdone ?_ ?_
            · intro q tid hq hfor
              cases (AList.lookup_insert _).symm.trans hq
              exact h.joined t req tid hreq hfor (Bool.not_eq_true _ ▸ howned)
            · rintro tid - ⟨⟨t', dev, hform⟩, -⟩
              cases hform
          rw [registered_with, registered_requests]
          exact hset.registered _

/-! ### A registration that succeeded -/

/-- What the code tests before it processes a late success: a caller still waits
to register this topic, and has not failed. -/
theorem publishing_iff (tid : TopicId) : l.publishing tid = true ↔
    ∃ t req, l.requests.lookup t = some req ∧ req.loopOwned = false ∧
      req.purpose = .register tid ∧ req.error = .none := by
  unfold ControlLink.publishing
  rw [List.any_eq_true]
  constructor
  · rintro ⟨⟨t, req⟩, hin, hreq⟩
    simp only [Bool.and_eq_true, Bool.not_eq_true', decide_eq_true_eq] at hreq
    exact ⟨t, req, AList.mem_lookup_iff.mpr hin, hreq.1.1, hreq.1.2, hreq.2⟩
  · rintro ⟨t, req, hlook, howned, hfor, herror⟩
    refine ⟨⟨t, req⟩, mem_entries_of_lookup hlook, ?_⟩
    simp [howned, hfor, herror]

/-- A call of `publish` in flight that has not failed answers for the record:
through the reply it has, its message, or a reply on its way. -/
theorem Books.covered_of_publishing (h : l.Books P conn secret) {tid : TopicId}
    (hpub : l.publishing tid = true) (hheld : l.Held conn tid) : l.Covered P conn secret tid := by
  obtain ⟨t, req, hlook, howned, hfor, herror⟩ := (publishing_iff tid).mp hpub
  cases hdone : req.done with
  | true => exact .answered hlook hfor howned hdone herror
  | false =>
      rcases (h.pending t req tid hlook hfor hdone).2 with ⟨m, hm, rfl⟩ | ⟨r, hr, rfl⟩
      · have hasks := h.asks m hm
        rw [hlook] at hasks
        cases m with
        | register _ b =>
            obtain ⟨q, hq, hforq, -⟩ := hasks
            cases hq
            rw [hfor] at hforq
            exact .registering hm (Purpose.register.inj hforq).symm
        | keepalive _ dev =>
            obtain ⟨⟨tid', hfor'⟩, -⟩ := hasks req rfl
            rw [hfor] at hfor'
            cases hfor'
        | unregister _ dev => cases hasks
      · have hfits := h.fits r hr
        cases r with
        | registerOk _ dev => exact .granted hr ⟨⟨_, dev, rfl⟩, req, hlook, hfor⟩
        | keepaliveOk _ =>
            obtain ⟨tid', hfor'⟩ := hfits req hlook
            rw [hfor] at hfor'
            cases hfor'
        | unregisterOk _ =>
            rw [hlook] at hfits
            cases hfits
        | error t' code =>
            -- the reply says that it failed, so a later one tells of the record
            obtain ⟨pre, post, hto⟩ := List.append_of_mem hr
            have hsuf : (.error t' code :: post) <:+ l.toNode := ⟨pre, hto.symm⟩
            obtain ⟨y, hy, hgrant⟩ := h.order tid _ post hsuf ⟨⟨_, code, rfl⟩, req, hlook, hfor⟩ hheld
            exact .granted (hsuf.subset (List.mem_cons_of_mem _ hy)) hgrant

/-- The loop takes a reply for a request of its own: the topic learns of the
record, a call of `publish` in flight answers for it, or it is given back. -/
theorem Inv.hear_owned (h : l.Inv P conn secret) {t : Nat} {dev : DevId} {rest : List CtlReply}
    (hto : l.toNode = .registerOk t dev :: rest) {req : Request} {tid : TopicId}
    (hreq : l.requests.lookup t = some req) (hfor : req.purpose = .register tid)
    (howned : req.loopOwned = true) (hdev : dev = devOf P conn secret tid)
    (hroom : ({ l with toNode := rest }.applyRegister tid dev).asked ≤ 2 ^ 32) :
    { { l with toNode := rest }.applyRegister tid dev with
      requests := ({ l with toNode := rest }.applyRegister tid dev).requests.erase t }.Inv
        P conn secret := by
  have hbooks : { l with toNode := rest, requests := l.requests.erase t }.Books P conn secret := by
    refine h.books.settle hto (lookup_erase_of_ne _ _) fun q tid' hq => ?_
    rw [show (CtlReply.registerOk t dev).txn = t from rfl, AList.lookup_erase] at hq
    cases hq
  have hjoined : ∀ t' q tid', (l.requests.erase t).lookup t' = some q → q.purpose = .register tid' →
      q.loopOwned = false → (l.topics.lookup tid').isSome = true := by
    intro t' q tid' hq hforq hownedq
    rcases Decidable.em (t' = t) with rfl | hne
    · rw [AList.lookup_erase] at hq
      cases hq
    · exact h.joined t' q tid' ((lookup_erase_of_ne _ _ t' hne).symm.trans hq) hforq hownedq
  have hcover : ∀ tid', l.Held conn tid' →
      { l with toNode := rest, requests := l.requests.erase t }.Covered P conn secret tid' ∨
        tid' = tid := by
    intro tid' hheld
    refine (h.covered_settle hto (lookup_erase_of_ne _ _) hheld).imp_right ?_
    rintro ⟨-, q, hq, hforq⟩
    rw [show (CtlReply.registerOk t dev).txn = t from rfl, hreq] at hq
    cases hq
    rw [hfor] at hforq
    exact (Purpose.register.inj hforq).symm
  have hpub : { l with toNode := rest }.publishing tid = true → l.Held conn tid →
      { l with toNode := rest, requests := l.requests.erase t }.Covered P conn secret tid := by
    intro hp hheld
    refine hbooks.covered_of_publishing ?_ hheld
    obtain ⟨t', q, hq, hown, hrest⟩ := (publishing_iff tid).mp hp
    have hne : t' ≠ t := by
      rintro rfl
      rw [show l.requests.lookup t' = some q from hq] at hreq
      cases hreq
      rw [hown] at howned
      cases howned
    exact (publishing_iff tid).mpr ⟨t', q, (lookup_erase_of_ne _ _ t' hne).trans hq, hown, hrest⟩
  revert hroom
  unfold ControlLink.applyRegister
  cases hti : l.topics.lookup tid with
  | none =>
      simp only
      split
      · rename_i hp
        intro hroom
        refine ⟨hbooks, hjoined, fun tid' hheld => ?_⟩
        rcases hcover tid' hheld with hc | rfl
        · exact hc
        · exact hpub hp hheld
      · intro hroom
        refine ⟨hbooks.notify hroom dev, hjoined, fun tid' hheld => ?_⟩
        rcases hcover tid' hheld with hc | rfl
        · exact hc.notify dev
        · subst hdev
          exact .unregistering (List.mem_append_right _ (List.mem_singleton_self _))
  | some ti =>
      have hkeep : ∀ ti₀, l.topics.lookup tid = some ti₀ → ti₀.published = true →
          ti₀.self = some (devOf P conn secret tid) →
          ti.published = true ∧ ti.self = some (devOf P conn secret tid) := by
        intro ti₀ hti₀ hp hself
        rw [hti] at hti₀
        cases hti₀
        exact ⟨hp, hself⟩
      simp only
      split
      · rename_i hp
        intro hroom
        refine ⟨hbooks.reseat _ _, joined_insert hjoined tid _, fun tid' hheld => ?_⟩
        rcases hcover tid' hheld with hc | rfl
        · refine hc.setTopic fun ti₀ hti₀ hp hself => ?_
          exact ⟨(hkeep ti₀ hti₀ hp hself).1, congrArg some hdev⟩
        · exact .published (AList.lookup_insert _) hp (congrArg some hdev)
      · rename_i hunpub
        split
        · rename_i hp
          intro hroom
          refine ⟨hbooks.reseat _ _, joined_insert hjoined tid _, fun tid' hheld => ?_⟩
          rcases hcover tid' hheld with hc | rfl
          · exact hc.setTopic hkeep
          · exact (hpub hp hheld).setTopic hkeep
        · intro hroom
          refine ⟨(hbooks.notify hroom dev).reseat _ _, joined_insert hjoined tid _,
            fun tid' hheld => ?_⟩
          rcases hcover tid' hheld with hc | rfl
          · exact (hc.notify dev).setTopic hkeep
          · subst hdev
            exact .unregistering (List.mem_append_right _ (List.mem_singleton_self _))

/-- Any reply, matched with its request and applied, keeps the invariant.  For a
`RegisterOk` the cases are whose request it is: the loop's, a waiting caller's,
or that of one which has given up. -/
theorem Inv.hear (h : l.Inv P conn secret) (hroom : l.hear.asked ≤ 2 ^ 32) :
    l.hear.Inv P conn secret := by
  revert hroom
  unfold ControlLink.hear
  cases hto : l.toNode with
  | nil => exact fun _ => h
  | cons r rest =>
      have hfits := h.books.fits r (by rw [hto]; exact List.mem_cons_self)
      cases r with
      | error t code => exact fun hroom => h.hear_error hto hroom
      | unregisterOk t => exact fun _ => h.settle_none hto hfits
      | keepaliveOk t =>
          unfold ControlLink.onControlMessage
          cases hreq : l.requests.lookup t with
          | none =>
              simp only [hreq]
              exact fun _ => h.settle_none hto hreq
          | some req =>
              obtain ⟨tid, hfor⟩ := hfits req hreq
              simp only [hreq, hfor]
              refine fun _ => h.settle_erase hto ?_
              rintro tid' - ⟨⟨t', dev, hform⟩, -⟩
              cases hform
      | registerOk t dev =>
          obtain ⟨req, tid, hreq, hfor, hdone, herror, hdev⟩ := hfits
          have hreq : l.requests.lookup t = some req := hreq
          unfold ControlLink.onControlMessage
          simp only [hreq, hfor]
          split
          · rename_i howned
            exact fun hroom => h.hear_owned hto hreq hfor howned hdev hroom
          · rename_i howned
            intro hroom
            have howned : req.loopOwned = false := Bool.not_eq_true _ ▸ howned
            have hnew : (l.requests.insert t { req with
                purpose := .register tid, done := true, reply := some dev }).lookup t = some
                { req with purpose := .register tid, done := true, reply := some dev } :=
              AList.lookup_insert _
            refine h.settle hto (fun t' hne => AList.lookup_insert_ne hne) ?_ ?_ ?_
            · intro q tid' hq hforq
              cases hnew.symm.trans hq
              cases hforq
              exact ⟨rfl, howned, fun _ => congrArg some hdev⟩
            · intro q tid' hq hforq
              cases hnew.symm.trans hq
              cases hforq
              exact h.joined t req tid hreq hfor howned
            · rintro tid' - ⟨-, q, hq, hforq⟩
              cases hreq.symm.trans hq
              cases hfor.symm.trans hforq
              exact .answered hnew rfl howned rfl herror

/-! ## Calls that return

What a call that waited does with its request, in whichever way its wait ended. -/

/-- A request that is done is erased: only its own reply is lost with it. -/
theorem Inv.covered_erase (h : l.Inv P conn secret) {t : Nat} {req : Request} {tid tid' : TopicId}
    (ht : l.requests.lookup t = some req) (hfor : req.purpose = .register tid)
    (hdone : req.done = true) (hheld : l.Held conn tid') :
    { l with requests := l.requests.erase t }.Covered P conn secret tid' ∨
      (tid' = tid ∧ req.error = .none) := by
  cases h.covered tid' hheld with
  | unregistering hin => exact Or.inl (.unregistering hin)
  | registering hin hid => exact Or.inl (.registering hin hid)
  | @granted y hin hy =>
      have hne : y.txn ≠ t := by
        rintro rfl
        rw [h.books.not_done_of_told hin ht hfor] at hdone
        cases hdone
      refine Or.inl (.granted hin ?_)
      rw [lookup_erase_of_ne _ _ _ hne]
      exact hy
  | @answered t' q hq hforq hownedq hdoneq herrorq =>
      rcases Decidable.em (t' = t) with rfl | hne
      · cases ht.symm.trans hq
        cases hfor.symm.trans hforq
        exact Or.inr ⟨rfl, herrorq⟩
      · have hq' := (lookup_erase_of_ne l.requests t t' hne).trans hq
        exact Or.inl (.answered hq' hforq hownedq hdoneq herrorq)
  | published htopic hp hself => exact Or.inl (.published htopic hp hself)
  | leaving hin hself => exact Or.inl (.leaving hin hself)

theorem Inv.joined_erase (h : l.Inv P conn secret) (t : Nat) :
    ∀ t' req tid, (l.requests.erase t).lookup t' = some req → req.purpose = .register tid →
      req.loopOwned = false → (l.topics.lookup tid).isSome = true := by
  intro t' req tid hreq hfor howned
  rcases Decidable.em (t' = t) with rfl | hne
  · rw [AList.lookup_erase] at hreq
    cases hreq
  · exact h.joined t' req tid ((lookup_erase_of_ne _ _ t' hne).symm.trans hreq) hfor howned

/-- A call returns that was told of a failure. -/
theorem Inv.erase (h : l.Inv P conn secret) {t : Nat} {req : Request} {tid : TopicId}
    (ht : l.requests.lookup t = some req) (hfor : req.purpose = .register tid)
    (hdone : req.done = true) (herror : req.error ≠ .none) :
    { l with requests := l.requests.erase t }.Inv P conn secret := by
  refine ⟨h.books.erase ht hfor hdone, h.joined_erase t, fun tid' hheld => ?_⟩
  rcases h.covered_erase ht hfor hdone hheld with hc | ⟨-, herr⟩
  · exact hc
  · exact absurd herr herror

/-- A call returns that was told of its record: the topic knows of it now. -/
theorem Inv.apply (h : l.Inv P conn secret) {t : Nat} {req : Request} {tid : TopicId}
    (ht : l.requests.lookup t = some req) (hfor : req.purpose = .register tid)
    (hdone : req.done = true) {ti : TopicImpl} (hpub : ti.published = true)
    (hself : ti.self = some (devOf P conn secret tid)) :
    ({ l with requests := l.requests.erase t }.setTopic tid ti).Inv P conn secret := by
  refine ⟨(h.books.erase ht hfor hdone).reseat _ _, joined_insert (h.joined_erase t) tid _,
    fun tid' hheld => ?_⟩
  rcases h.covered_erase ht hfor hdone hheld with hc | ⟨rfl, -⟩
  · exact hc.setTopic fun _ _ _ _ => ⟨hpub, hself⟩
  · exact .published (AList.lookup_insert _) hpub hself

/-- A call gives up before its reply came. -/
theorem Inv.handOver (h : l.Inv P conn secret) {t : Nat} {req : Request}
    (ht : l.requests.lookup t = some req) (hdone : req.done = false) :
    { l with requests := l.requests.insert t { req with loopOwned := true } }.Inv P conn secret := by
  have hnew : (l.requests.insert t { req with loopOwned := true }).lookup t =
      some { req with loopOwned := true } := AList.lookup_insert _
  have hold : ∀ t', t' ≠ t →
      (l.requests.insert t { req with loopOwned := true }).lookup t' = l.requests.lookup t' :=
    fun t' hne => AList.lookup_insert_ne hne
  refine ⟨h.books.handOver ht hdone, ?_, fun tid hheld => ?_⟩
  · intro t' q tid hq hfor howned
    rcases Decidable.em (t' = t) with rfl | hne
    · cases hnew.symm.trans hq
      cases howned
    · exact h.joined t' q tid ((hold t' hne).symm.trans hq) hfor howned
  · cases h.covered tid hheld with
    | unregistering hin => exact .unregistering hin
    | registering hin hid => exact .registering hin hid
    | @granted y hin hy =>
        refine .granted hin ⟨hy.1, ?_⟩
        obtain ⟨q, hq, hfor⟩ := hy.2
        rcases Decidable.em (y.txn = t) with heq | hne
        · rw [heq] at hq ⊢
          cases ht.symm.trans hq
          exact ⟨_, hnew, hfor⟩
        · exact ⟨q, (hold _ hne).trans hq, hfor⟩
    | @answered t' q hq hfor howned hd herror =>
        have hne : t' ≠ t := by
          rintro rfl
          cases ht.symm.trans hq
          rw [hdone] at hd
          cases hd
        exact .answered ((hold t' hne).trans hq) hfor howned hd herror
    | published htopic hp hself => exact .published htopic hp hself
    | leaving hin hself => exact .leaving hin hself

/-- No call gives up at a moment when the loop has already stored its success. -/
def Heeded (l : ControlLink) : Op → Prop
  | .wake txn true => ∀ req ∈ l.requests.lookup txn, ¬ (req.done = true ∧ req.error = .none)
  | _ => True

/-- The caller wakes.  The condition is used here: one that gives up must not
leave a stored success unread, for the record it granted would be covered by
nothing. -/
theorem Inv.wake (h : l.Inv P conn secret) {t : Nat} {expired : Bool}
    (hheed : l.Heeded (.wake t expired)) : (l.wake t expired).Inv P conn secret := by
  unfold ControlLink.wake
  cases hreq : l.requests.lookup t with
  | none => exact h
  | some req =>
      simp only
      cases hfor : req.purpose with
      | keepalive tid => exact h
      | register tid =>
          cases expired with
          | true =>
              have hgive : ¬ (req.done = true ∧ req.error = .none) := hheed req hreq
              simp only [Bool.not_true, Bool.false_and, Bool.or_false, Bool.not_false,
                Bool.true_and]
              split
              · exact h
              cases hdone : req.done with
              | true => exact h.erase hreq hfor hdone fun herror => hgive ⟨hdone, herror⟩
              | false =>
                  have hmove := h.handOver hreq hdone
                  rw [hfor, hdone] at hmove
                  exact hmove
          | false =>
              simp only [Bool.not_false, Bool.true_and]
              cases hdone : req.done with
              | false =>
                  simp only [Bool.not_false, Bool.or_true]
                  exact h
              | true =>
                  simp only [Bool.not_true, Bool.or_false, Bool.false_and]
                  split
                  · exact h
                  rename_i howned
                  obtain ⟨-, hreply⟩ := h.books.stored t req tid hreq hfor hdone
                  rcases Decidable.em (req.error = .none) with herror | herror
                  · obtain ⟨ti, hti⟩ := Option.isSome_iff_exists.mp
                      (h.joined t req tid hreq hfor (Bool.not_eq_true _ ▸ howned))
                    simp only [herror, hreply herror, hti]
                    exact h.apply hreq hfor hdone rfl rfl
                  · simp only [herror]
                    exact h.erase hreq hfor hdone herror

/-! ## Runs

The books are in order along every run, and at rest they hold nothing of a topic
that is not published. -/

/-- Every operation of the node, the server and the line between them keeps the
invariant. -/
theorem Inv.step (h : l.Inv P conn secret) {op : Op} (hheed : l.Heeded op)
    (hroom : (l.step P conn op).asked ≤ 2 ^ 32) : (l.step P conn op).Inv P conn secret := by
  cases op with
  | join tid keyed => exact h.join tid keyed
  | publish tid «meta» unlisted => exact h.publish tid «meta» unlisted hroom
  | wake t expired => exact h.wake hheed
  | unpublish tid => exact h.unpublish tid hroom
  | leave tid => exact h.leave tid
  | leaveRest i => exact h.leaveRest i hroom
  | sendKeepalive tid => exact h.sendKeepalive tid hroom
  | reregister tid => exact h.reregister tid hroom
  | hear => exact h.hear hroom
  | other => exact h.alloc
  | serve now => exact h.serve now
  | registry op =>
      show (if registrar op = some conn.key then l
        else { l with registry := l.registry.step P op } : ControlLink).Inv P conn secret
      split
      · exact h
      · rename_i hop
        exact h.registry hop

/-! ### Transactions are only given out -/

theorem asked_unregisterSelf (l : ControlLink) (ti : TopicImpl) :
    l.asked ≤ (l.unregisterSelf ti).asked := by
  unfold ControlLink.unregisterSelf
  split
  · exact Nat.le_refl _
  · exact Nat.le_succ _

theorem asked_reregister (l : ControlLink) (tid : TopicId) :
    l.asked ≤ (l.reregister tid).asked := by
  unfold ControlLink.reregister
  split
  · exact Nat.le_refl _
  · split
    · exact Nat.le_succ _
    · exact Nat.le_refl _

theorem asked_registered (l : ControlLink) (purpose : Purpose) :
    (l.registered purpose).asked = l.asked := by
  unfold ControlLink.registered
  split
  · rfl
  · split <;> rfl

theorem asked_onError (l : ControlLink) (t : Nat) (code : ErrorCode) :
    l.asked ≤ (l.onError t code).asked := by
  unfold ControlLink.onError
  split
  · exact Nat.le_refl _
  · dsimp only
    split
    · exact asked_reregister { l with requests := l.requests.erase t } _
    · split <;> exact (asked_registered l _).ge

theorem asked_applyRegister (l : ControlLink) (tid : TopicId) (dev : DevId) :
    l.asked ≤ (l.applyRegister tid dev).asked := by
  unfold ControlLink.applyRegister
  split
  · split
    · exact Nat.le_refl _
    · dsimp only
      split
      · exact Nat.le_refl _
      · exact Nat.le_succ _
  · split
    · exact Nat.le_refl _
    · exact Nat.le_succ _

theorem asked_onControlMessage (l : ControlLink) (r : CtlReply) :
    l.asked ≤ (l.onControlMessage r).asked := by
  cases r with
  | error t code => exact asked_onError l t code
  | unregisterOk t => exact Nat.le_refl _
  | keepaliveOk t =>
      unfold ControlLink.onControlMessage
      dsimp only
      split
      · exact Nat.le_refl _
      · split <;> exact Nat.le_refl _
  | registerOk t dev =>
      unfold ControlLink.onControlMessage
      dsimp only
      split
      · exact Nat.le_refl _
      · split
        · exact Nat.le_refl _
        · split
          · exact asked_applyRegister l _ dev
          · exact Nat.le_refl _

theorem asked_wake (l : ControlLink) (t : Nat) (expired : Bool) :
    (l.wake t expired).asked = l.asked := by
  unfold ControlLink.wake
  split
  · rfl
  · split
    · rfl
    · dsimp only
      split
      · rfl
      · split <;> rfl

/-- Transactions are only ever allotted, so a bound on a run's end bounds each
of its states. -/
theorem asked_step (l : ControlLink) (op : Op) : l.asked ≤ (l.step P conn op).asked := by
  cases op with
  | join tid keyed =>
      show l.asked ≤ (l.join tid keyed).asked
      unfold ControlLink.join
      split <;> exact Nat.le_refl _
  | publish tid «meta» unlisted =>
      show l.asked ≤ (l.publish tid «meta» unlisted).asked
      unfold ControlLink.publish
      split
      · exact Nat.le_refl _
      · exact Nat.le_succ _
  | wake t expired => exact (asked_wake l t expired).ge
  | unpublish tid =>
      show l.asked ≤ (l.unpublish tid).asked
      unfold ControlLink.unpublish
      split
      · exact Nat.le_refl _
      · exact asked_unregisterSelf l _
  | leave tid =>
      show l.asked ≤ (l.leave tid).asked
      unfold ControlLink.leave
      split
      · exact Nat.le_refl _
      · split <;> exact Nat.le_refl _
  | leaveRest i =>
      show l.asked ≤ (l.leaveRest i).asked
      unfold ControlLink.leaveRest
      split
      · exact Nat.le_refl _
      · exact asked_unregisterSelf { l with leaving := l.leaving.eraseIdx i } _
  | sendKeepalive tid =>
      show l.asked ≤ (l.sendKeepalive tid).asked
      unfold ControlLink.sendKeepalive
      split
      · exact Nat.le_refl _
      · split
        · exact Nat.le_refl _
        · split
          · exact Nat.le_refl _
          · exact Nat.le_succ _
  | reregister tid => exact asked_reregister l tid
  | hear =>
      show l.asked ≤ l.hear.asked
      unfold ControlLink.hear
      split
      · exact Nat.le_refl _
      · rename_i r rest hto
        exact asked_onControlMessage { l with toNode := rest } r
  | other => exact Nat.le_succ _
  | serve now =>
      show l.asked ≤ (l.serve P conn now).asked
      unfold ControlLink.serve
      split <;> exact Nat.le_refl _
  | registry op =>
      show l.asked ≤ (if registrar op = some conn.key then l
        else { l with registry := l.registry.step P op } : ControlLink).asked
      split <;> exact Nat.le_refl _

/-- By induction on the run: the invariant holds in every state whose run met
the condition at each step. -/
theorem inv_run (h : l.Inv P conn secret) (ops : List Op)
    (hheed : AllSteps Heeded (step P conn) l ops)
    (hroom : (run (step P conn) l ops).asked ≤ 2 ^ 32) :
    (run (step P conn) l ops).Inv P conn secret := by
  have hstep : ∀ (l : ControlLink) (op : Op), l.Heeded op →
      (l.asked ≤ 2 ^ 32 → l.Inv P conn secret) →
      (l.step P conn op).asked ≤ 2 ^ 32 → (l.step P conn op).Inv P conn secret :=
    fun l op hheed h hroom => (h (Nat.le_trans (asked_step l op) hroom)).step hheed hroom
  exact run_invariant_of_allSteps hstep (fun _ => h) ops hheed hroom

/-! ### Coming to rest -/

/-- A connection on which nothing has been said yet, whatever the first
transaction is. -/
structure Fresh (conn : ConnView) (l : ControlLink) : Prop where
  next : l.nextTxn < 2 ^ 32
  asked : l.asked = 0
  toServer : l.toServer = []
  toNode : l.toNode = []
  requests : l.requests = ∅
  unheld : ∀ tid, ¬ l.Held conn tid

/-- It holds where a run begins: nothing joined, nothing on its way, no record
held under the connection. -/
theorem Fresh.inv (h : l.Fresh conn) : l.Inv P conn l.registry.secret := by
  obtain ⟨hnext, -, hserver, hnode, hrequests, hunheld⟩ := h
  have hnone : ∀ t, l.requests.lookup t = none := by
    intro t
    rw [hrequests]
    exact AList.lookup_empty t
  have hno : ∀ {t req}, l.requests.lookup t ≠ some req := by
    intro t req hreq
    rw [hnone] at hreq
    cases hreq
  refine ⟨⟨rfl, hnext, ?_, ?_, fun t req hreq => absurd hreq hno, ?_, ?_, ?_,
    fun t req tid hreq => absurd hreq hno, fun t req tid hreq => absurd hreq hno, ?_, ?_⟩,
    fun t req tid hreq => absurd hreq hno, fun tid hheld => absurd hheld (hunheld tid)⟩
  · rw [hserver]
    exact fun m hm => absurd hm List.not_mem_nil
  · rw [hnode]
    exact fun r hr => absurd hr List.not_mem_nil
  · rw [hserver, hnode]
    exact List.nodup_nil
  · rw [hserver]
    exact fun m hm => absurd hm List.not_mem_nil
  · rw [hnode]
    exact fun r hr => absurd hr List.not_mem_nil
  · intro dev s hs howner
    exact absurd ((held_iff _).mpr ⟨dev, s, hs, howner, rfl⟩) (hunheld s.topicId)
  · exact fun tid x post _ _ hheld => absurd hheld (hunheld tid)

/-- Everything about the topic has come to rest and it is not published. -/
structure AtRest (l : ControlLink) (tid : TopicId) : Prop where
  toServer : l.toServer = []
  toNode : l.toNode = []
  idle : l.publishActive tid = false
  left : ∀ ti, (tid, ti) ∉ l.leaving
  unpublished : ∀ ti, l.topics.lookup tid = some ti → ti.published = false

/-- At rest, with the topic not published and nothing on its way, the invariant
leaves the server no record for it. -/
theorem Inv.not_held (h : l.Inv P conn secret) {tid : TopicId} (hrest : l.AtRest tid) :
    ¬ l.Held conn tid := by
  intro hheld
  cases h.covered tid hheld with
  | unregistering hin =>
      rw [hrest.toServer] at hin
      exact absurd hin List.not_mem_nil
  | registering hin _ =>
      rw [hrest.toServer] at hin
      exact absurd hin List.not_mem_nil
  | granted hin _ =>
      rw [hrest.toNode] at hin
      exact absurd hin List.not_mem_nil
  | answered hreq hfor howned _ _ =>
      have hactive : l.publishActive tid = true := by
        refine List.any_eq_true.mpr ⟨_, mem_entries_of_lookup hreq, ?_⟩
        simp [hfor, howned]
      rw [hrest.idle] at hactive
      cases hactive
  | published htopic hpub _ =>
      rw [hrest.unpublished _ htopic] at hpub
      cases hpub
  | leaving hin _ => exact hrest.left _ hin

/-- No registration is left behind: in every run in which no call of `publish`
gives up on a success that is already there, and in which transactions do not
come round, a topic that has come to rest unpublished has no record of this
connection. -/
theorem no_orphan_registration (conn : ConnView) (l₀ : ControlLink) (h₀ : l₀.Fresh conn)
    (ops : List Op) (hheed : AllSteps Heeded (step P conn) l₀ ops)
    (hroom : (run (step P conn) l₀ ops).asked ≤ 2 ^ 32) (tid : TopicId)
    (hrest : (run (step P conn) l₀ ops).AtRest tid) :
    ¬ (run (step P conn) l₀ ops).Held conn tid :=
  (inv_run h₀.inv ops hheed hroom).not_held hrest

/-- A node and a server that have not talked yet; the node's transactions come
round after the first. -/
def sampleLink : ControlLink where
  nextTxn := 2 ^ 32 - 1
  registry := { secret := Vector.replicate 32 0 }

def sampleConn : ConnView := ⟨1, {}⟩

def sampleTopic : TopicId := Vector.replicate 16 5

/-- Published, and given up on by the call before the loop hears the reply. -/
def sampleLate : List Op :=
  [.join sampleTopic false, .publish sampleTopic [] false, .serve 0, .wake (2 ^ 32 - 1) true, .hear,
    .serve 0, .hear]

/-- Published, and given up on by the call just after the loop has heard the
reply. -/
def sampleStored : List Op :=
  [.join sampleTopic false, .publish sampleTopic [] false, .serve 0, .hear,
    .wake (2 ^ 32 - 1) true]

theorem sampleLink_fresh : sampleLink.Fresh sampleConn := by
  refine ⟨by decide, rfl, rfl, rfl, rfl, ?_⟩
  rintro tid ⟨dev, e, he, -⟩
  cases he

/-- Rest, as it can be computed. -/
theorem AtRest.of_empty {tid : TopicId} (h : l.toServer = [] ∧ l.toNode = [] ∧
    l.publishActive tid = false ∧ l.leaving.length = 0 ∧
    (l.topics.lookup tid).all (fun ti => !ti.published) = true) : l.AtRest tid := by
  obtain ⟨hserver, hnode, hidle, hleaving, htopic⟩ := h
  refine ⟨hserver, hnode, hidle, fun ti hin => ?_, fun ti hti => ?_⟩
  · rw [List.eq_nil_of_length_eq_zero hleaving] at hin
    exact absurd hin List.not_mem_nil
  · rw [hti] at htopic
    exact (Bool.not_eq_true' _).mp htopic

theorem no_orphan_registration_sample :
    sampleLink.Fresh sampleConn ∧
    AllSteps Heeded (step Primitives.checksum sampleConn) sampleLink sampleLate ∧
    (run (step Primitives.checksum sampleConn) sampleLink sampleLate).asked = 2 ∧
    (run (step Primitives.checksum sampleConn) sampleLink sampleLate).AtRest sampleTopic ∧
    ¬ (run (step Primitives.checksum sampleConn) sampleLink sampleLate).Held sampleConn
      sampleTopic := by
  have hheed : AllSteps Heeded (step Primitives.checksum sampleConn) sampleLink sampleLate := by
    refine ⟨trivial, trivial, trivial, ?_, trivial, trivial, trivial, trivial⟩
    show ∀ req ∈ (run (step Primitives.checksum sampleConn) sampleLink
      (sampleLate.take 3)).requests.lookup (2 ^ 32 - 1), ¬ (req.done = true ∧ req.error = .none)
    decide +kernel
  have hasked : (run (step Primitives.checksum sampleConn) sampleLink sampleLate).asked = 2 := by
    decide +kernel
  have hrest : (run (step Primitives.checksum sampleConn) sampleLink sampleLate).AtRest
      sampleTopic := AtRest.of_empty (by decide +kernel)
  exact ⟨sampleLink_fresh, hheed, hasked, hrest, no_orphan_registration sampleConn sampleLink
    sampleLink_fresh sampleLate hheed (Nat.le_trans hasked.le (by decide)) sampleTopic hrest⟩

/-- The call's deadline passes just after the loop has stored the reply:
everything is at rest, the topic is not published, and the record stays. -/
theorem registration_orphaned :
    sampleLink.Fresh sampleConn ∧
    (run (step Primitives.checksum sampleConn) sampleLink sampleStored).AtRest sampleTopic ∧
    (run (step Primitives.checksum sampleConn) sampleLink sampleStored).Held sampleConn
      sampleTopic := by
  refine ⟨sampleLink_fresh, AtRest.of_empty (by decide +kernel), ?_⟩
  have hany : ((run (step Primitives.checksum sampleConn) sampleLink
      sampleStored).registry.byDev.lookup
        (devOf Primitives.checksum sampleConn (Vector.replicate 32 0) sampleTopic)).any (fun e =>
      decide (e.owner = sampleConn.key ∧ e.topicId = sampleTopic)) = true := by
    decide +kernel
  obtain ⟨e, he, hown⟩ := (Option.any_eq_true _ _).mp hany
  exact ⟨_, e, he, of_decide_eq_true hown⟩

end UConnect.Node.ControlLink
