/-
  Node/ControlBooks.lean --- who is answerable for a registration.

  A record the server holds for a connection must go away once the topic is not
  published any more, whoever gets the reply that tells of it: the call of
  `publish` that waits for it, or the loop, to which a call that gave up leaves
  its request.  `Covered` lists who can be answerable for a record; `Books` is
  what messages, replies and requests say of each other.  Here is what the
  server's side does to them.
-/
import UConnect.Foundation.Run
import UConnect.Foundation.Serial
import UConnect.Node.Publish
import UConnect.Server.RegistryIndex

set_option autoImplicit false

/-! ## The records of one connection

What a message about a record does to the records the connection holds. -/

namespace UConnect.Server.Registry

open UConnect.Crypto UConnect.Node

variable {P : Primitives}

/-- After some of an owner's records are struck out, the others read as before. -/
theorem record_strike (v : View) (o : ConnKey) (l : List DevId) (d : DevId) :
    (v.strike o l).record d = if d ∈ l then none else v.record d :=
  View.record_foldl_remove l v d

/-- What a registration does to the records: it writes one, or there was none
and it changes nothing. -/
theorem record_registerEntry (r : Registry) (msg : Register) (src : Endpoint) (owner : ConnKey)
    (now : Instant) :
    let dev := deriveDevId P r.secret msg.id src
    let res := r.registerEntry P msg src owner now
    (res.1.code = .none ∧
        res.2.view.record = Function.update r.view.record dev (some ⟨dev, msg.id, src, owner⟩)) ∨
      (res.1.code ≠ .none ∧ r.view.record dev = none ∧ res.2.view.record = r.view.record) := by
  intro dev res
  have heff := view_registerEntry P r msg src owner now
  dsimp only at heff
  cases hrec : r.byDev.lookup dev with
  | some e =>
      rw [hrec] at heff
      refine .inl ⟨heff.1, ?_⟩
      rw [heff.2]
      split <;> rfl
  | none =>
      rw [hrec] at heff
      rcases heff with ⟨hcode, hview⟩ | ⟨hcode, hview⟩
      · refine .inr ⟨?_, ?_, congrArg View.record hview⟩
        · rw [hcode]
          exact ErrorCode.noConfusion
        · simp only [view, hrec, Option.map_none]
      · refine .inl ⟨hcode, ?_⟩
        rw [hview]
        rfl

/-- No registration changes the secret from which the server derives its names. -/
theorem secret_registerEntry (r : Registry) (msg : Register) (src : Endpoint) (owner : ConnKey)
    (now : Instant) : (r.registerEntry P msg src owner now).2.secret = r.secret := by
  have heff := view_registerEntry P r msg src owner now
  dsimp only at heff
  show (r.registerEntry P msg src owner now).2.view.secret = r.view.secret
  cases hrec : r.byDev.lookup (deriveDevId P r.secret msg.id src) with
  | some e =>
      rw [hrec] at heff
      rw [heff.2]
      split <;> rfl
  | none =>
      rw [hrec] at heff
      rcases heff with ⟨-, hview⟩ | ⟨-, hview⟩
      · rw [hview]
      · rw [hview]
        rfl

/-- The name handed out depends on the topic, the endpoint and the secret, not
on who asks nor on when: asking again for one topic from one connection names
one record. -/
theorem devId_registerEntry (r : Registry) (msg : Register) (src : Endpoint) (owner : ConnKey)
    (now : Instant) :
    (r.registerEntry P msg src owner now).1.devId = deriveDevId P r.secret msg.id src := by
  unfold registerEntry
  dsimp only
  rw [apply_ite Prod.fst, apply_ite RegisterResult.devId]
  exact ite_self _

/-- Unregistering removes records only, and at the end the connection has none
there. -/
theorem record_unregister (r : Registry) (dev : DevId) (owner : ConnKey) :
    (∀ d s, (r.unregister dev owner).2.view.record d = some s → r.view.record d = some s) ∧
      (∀ s, (r.unregister dev owner).2.view.record dev = some s → s.owner ≠ owner) ∧
      (r.unregister dev owner).2.secret = r.secret := by
  rcases view_unregister r dev owner with hview | ⟨-, hview⟩
  · refine ⟨fun d s hd => ?_, fun s hs howner => ?_, congrArg View.secret hview⟩
    · rw [hview] at hd
      exact hd
    · -- had the connection owned it, the view would have changed
      rw [hview] at hs
      obtain ⟨e, he, rfl⟩ := Option.map_eq_some_iff.mp hs
      have hgone : (r.unregister dev owner).2.view.record dev = none := by
        have howner : e.owner = owner := howner
        have hdone : r.unregister dev owner = (.none, { r with
            byOwner := if ((r.owned owner).filter (· ≠ dev)).isEmpty then r.byOwner.erase owner
              else r.byOwner.insert owner ((r.owned owner).filter (· ≠ dev)) }.eraseEntry dev) := by
          unfold unregister
          rw [he]
          simp only [howner, ne_eq, not_true_eq_false, if_false]
        rw [hdone]
        show Option.map _ _ = none
        rw [lookup_eraseEntry, if_pos rfl, Option.map_none]
      rw [hview] at hgone
      rw [hgone] at hs
      cases hs
  · have hsecret : (r.unregister dev owner).2.view.secret = r.view.secret := by
      rw [hview]
      exact View.secret_foldl_remove [dev] r.view
    refine ⟨fun d s hd => ?_, fun s hs => ?_, hsecret⟩
    · rw [hview, record_strike] at hd
      split at hd
      · cases hd
      · exact hd
    · rw [hview, record_strike, if_pos (List.mem_singleton_self dev)] at hs
      cases hs

/-- No other call of the registry makes or changes a record of the connection. -/
theorem record_step {r : Registry} {op : Op} {key : ConnKey}
    (hop : ControlLink.registrar op ≠ some key) {d : DevId} {s : Stub}
    (h : (r.step P op).view.record d = some s) (howner : s.owner = key) :
    r.view.record d = some s := by
  have quiet : (r.step P op).view = r.view → r.view.record d = some s := by
    intro hview
    rw [hview] at h
    exact h
  cases op with
  | register msg src owner now =>
      have hne : owner ≠ key := fun heq => hop (congrArg some heq)
      rcases record_registerEntry (P := P) r msg src owner now with ⟨-, hrec⟩ | ⟨-, -, hrec⟩
      · have h : (r.registerEntry P msg src owner now).2.view.record d = some s := h
        rw [hrec, Function.update_apply] at h
        split at h
        · cases h
          exact absurd howner hne
        · exact h
      · have h : (r.registerEntry P msg src owner now).2.view.record d = some s := h
        rw [hrec] at h
        exact h
  | unregister dev owner => exact (record_unregister r dev owner).1 d s h
  | dropOwner owner =>
      have h : (r.dropOwner owner).2.view.record d = some s := h
      rw [view_dropOwner, record_strike] at h
      split at h
      · cases h
      · exact h
  | relayAlloc src peer kind owner addr now draws =>
      refine quiet ?_
      show (((r.relayAlloc src peer kind owner addr now draws).map (·.2)).getD r).view = r.view
      cases hr : r.relayAlloc src peer kind owner addr now draws with
      | none => rfl
      | some p => exact view_relayAlloc hr
  | refresh dev owner now => exact quiet (view_refresh r dev owner now)
  | update msg owner now => exact quiet (view_update r msg owner now)
  | lookup t max wantMeta now s => exact quiet (view_lookup r t max wantMeta now s)
  | resolve dev now => exact h
  | listTopics cursor limit now => exact quiet (view_expireFresh r now)
  | connectTarget src dst owner => exact quiet (view_connectTarget r src dst owner)
  | relayCharge id bytes now => exact quiet (view_relayCharge r id bytes now)
  | udpBind id token src now => exact quiet (view_udpBind r id token src now)
  | udpForward id src bytes now => exact quiet (view_udpForward r id src bytes now)
  | relayClose id => exact quiet (view_relayClose r id)
  | sweep now => exact quiet ((view_releaseWhere _ _).trans (view_expireFresh r now))
  | stats now => exact quiet (view_expireFresh r now)

end UConnect.Server.Registry

namespace UConnect.Node.ControlLink

open UConnect.Foundation UConnect.Crypto UConnect.Server

/-! ## Messages, replies and requests

What is in flight in either direction is about requests that wait, and every
record held is covered by someone who will hear of it or undo it. -/

section Model

variable (P : Primitives) (conn : ConnView) (secret : SymKey)

/-- The device id of a topic on this connection.  The server derives it from the
topic, the endpoint it sees and its secret. -/
def devOf (tid : TopicId) : DevId := Registry.deriveDevId P secret tid conn.src

/-- The server holds a record that this connection registered for the topic. -/
def Held (l : ControlLink) (tid : TopicId) : Prop :=
  ∃ dev e, l.registry.byDev.lookup dev = some e ∧ e.owner = conn.key ∧ e.topicId = tid

/-- What the request of a message on its way says: the one of a REGISTER
registers its topic and has no reply yet, and an Unregister has none. -/
def Asks (o : Option Request) : CtlMessage → Prop
  | .register _ m =>
      ∃ req, o = some req ∧ req.purpose = .register m.id ∧ req.done = false ∧ req.error = .none
  | .keepalive _ _ => ∀ req, o = some req → (∃ tid, req.purpose = .keepalive tid) ∧ req.done = false
  | .unregister _ _ => o = none

/-- What the request of a reply on its way says: the reply answers what was
asked, and a success names this connection's record. -/
def Fits (o : Option Request) : CtlReply → Prop
  | .registerOk _ dev =>
      ∃ req tid, o = some req ∧ req.purpose = .register tid ∧ req.done = false ∧
        req.error = .none ∧ dev = devOf P conn secret tid
  | .keepaliveOk _ => ∀ req, o = some req → ∃ tid, req.purpose = .keepalive tid
  | .unregisterOk _ => o = none
  | .error _ code => code ≠ .none ∧ ∀ req, o = some req → req.done = false

/-- The reply that a registration of the topic succeeded. -/
def Grant (o : Option Request) (tid : TopicId) (y : CtlReply) : Prop :=
  (∃ t dev, y = .registerOk t dev) ∧ ∃ req, o = some req ∧ req.purpose = .register tid

/-- The reply that a registration of the topic failed. -/
def Refusal (o : Option Request) (tid : TopicId) (y : CtlReply) : Prop :=
  (∃ t code, y = .error t code) ∧ ∃ req, o = some req ∧ req.purpose = .register tid

/-- Who can be answerable for a record of the topic.  A message on its way may
create or remove it, a reply may tell of it, a request may have it stored, or
the topic remembers it, also while it is being left. -/
inductive Covered (l : ControlLink) (tid : TopicId) : Prop where
  /-- It is about to be removed. -/
  | unregistering {t : Nat} (h : .unregister t (devOf P conn secret tid) ∈ l.toServer)
  /-- It is about to be registered anew. -/
  | registering {t : Nat} {m : Register} (h : .register t m ∈ l.toServer) (hid : m.id = tid)
  /-- The reply that tells of it is on its way. -/
  | granted {y : CtlReply} (h : y ∈ l.toNode) (hy : Grant (l.requests.lookup y.txn) tid y)
  /-- The reply is there and a call of `publish` will look at it. -/
  | answered {t : Nat} {req : Request} (h : l.requests.lookup t = some req)
      (hfor : req.purpose = .register tid) (howned : req.loopOwned = false)
      (hdone : req.done = true) (herror : req.error = .none)
  /-- The topic knows. -/
  | published {ti : TopicImpl} (h : l.topics.lookup tid = some ti) (hpub : ti.published = true)
      (hself : ti.self = some (devOf P conn secret tid))
  /-- A call of `leave` will remove it. -/
  | leaving {ti : TopicImpl} (h : (tid, ti) ∈ l.leaving)
      (hself : ti.self = some (devOf P conn secret tid))

/-- The transaction has been given out. -/
def Given (l : ControlLink) (t : Nat) : Prop := Drawn (2 ^ 32) l.nextTxn l.asked t

/-- The bookkeeping of the connection: what messages on their way, replies on
their way and requests in the table say of each other, and what they say of the
server's records. -/
structure Books (l : ControlLink) : Prop where
  secret_eq : l.registry.secret = secret
  next : l.nextTxn < 2 ^ 32
  sent : ∀ m ∈ l.toServer, l.Given m.txn
  told : ∀ r ∈ l.toNode, l.Given r.txn
  known : ∀ t req, l.requests.lookup t = some req → l.Given t
  once : (l.toNode.map CtlReply.txn ++ l.toServer.map CtlMessage.txn).Nodup
  asks : ∀ m ∈ l.toServer, Asks (l.requests.lookup m.txn) m
  fits : ∀ r ∈ l.toNode, Fits P conn secret (l.requests.lookup r.txn) r
  /-- A registration without a reply is on its way, one way or the other. -/
  pending : ∀ t req tid, l.requests.lookup t = some req → req.purpose = .register tid →
    req.done = false → req.error = .none ∧
      ((∃ m ∈ l.toServer, m.txn = t) ∨ ∃ r ∈ l.toNode, r.txn = t)
  /-- A reply is stored for the call that waits for it only. -/
  stored : ∀ t req tid, l.requests.lookup t = some req → req.purpose = .register tid →
    req.done = true → req.loopOwned = false ∧
      (req.error = .none → req.reply = some (devOf P conn secret tid))
  own : ∀ dev s, l.registry.view.record dev = some s → s.owner = conn.key →
    dev = devOf P conn secret s.topicId
  /-- Behind the reply that a registration failed there is no record, unless a
  later reply tells of one. -/
  order : ∀ tid x post, (x :: post) <:+ l.toNode → Refusal (l.requests.lookup x.txn) tid x →
    l.Held conn tid → ∃ y ∈ post, Grant (l.requests.lookup y.txn) tid y

/-- Every record is answered for, and the books on which that rests are right. -/
structure Inv (l : ControlLink) : Prop where
  books : l.Books P conn secret
  /-- A topic is not left while a call of `publish` is active on it. -/
  joined : ∀ t req tid, l.requests.lookup t = some req → req.purpose = .register tid →
    req.loopOwned = false → (l.topics.lookup tid).isSome = true
  covered : ∀ tid, l.Held conn tid → l.Covered P conn secret tid

end Model

variable {P : Primitives} {conn : ConnView} {secret : SymKey} {l l' : ControlLink}

/-! ## Requests made

A request takes the next transaction, under which nothing else is in flight. -/

/-- The transaction about to be allotted is held by no request, while fewer than
2^32 were allotted. -/
theorem Books.lookup_nextTxn (h : l.Books P conn secret) (hroom : l.asked < 2 ^ 32) :
    l.requests.lookup l.nextTxn = none := by
  cases hlook : l.requests.lookup l.nextTxn with
  | none => rfl
  | some req => exact absurd rfl ((h.known _ _ hlook).ne_next hroom)

/-- Each transaction stands at most once on the way, in either direction, also
with the new message appended. -/
theorem Books.once_send (h : l.Books P conn secret) (hroom : l.asked < 2 ^ 32) {m : CtlMessage}
    (hm : m.txn = l.nextTxn) :
    (l.toNode.map CtlReply.txn ++ (l.toServer ++ [m]).map CtlMessage.txn).Nodup := by
  rw [List.map_append, ← List.append_assoc, List.map_singleton, hm]
  refine List.Nodup.append h.once (List.nodup_singleton _) ?_
  rw [List.disjoint_singleton]
  intro hmem
  rcases List.mem_append.mp hmem with hmem | hmem
  · obtain ⟨r, hr, heq⟩ := List.mem_map.mp hmem
    exact (h.told r hr).ne_next hroom heq
  · obtain ⟨m', hm', heq⟩ := List.mem_map.mp hmem
    exact (h.sent m' hm').ne_next hroom heq

/-- What is on its way to the server carries transactions that were allotted. -/
theorem Books.sent_send (h : l.Books P conn secret) {m : CtlMessage} (hm : m.txn = l.nextTxn) :
    ∀ m' ∈ l.toServer ++ [m], l.allocTxn.Given m'.txn := by
  intro m' hm'
  rcases List.mem_append.mp hm' with hm' | hm'
  · exact (h.sent m' hm').earlier
  · rw [List.mem_singleton.mp hm', hm]
    exact .last h.next l.asked

theorem next_alloc (l : ControlLink) : l.allocTxn.nextTxn < 2 ^ 32 := Nat.mod_lt _ (by decide)

/-- A transaction is taken for something else. -/
theorem Books.alloc (h : l.Books P conn secret) : l.allocTxn.Books P conn secret where
  secret_eq := h.secret_eq
  next := next_alloc l
  sent m hm := (h.sent m hm).earlier
  told r hr := (h.told r hr).earlier
  known t req ht := (h.known t req ht).earlier
  once := h.once
  asks := h.asks
  fits := h.fits
  pending := h.pending
  stored := h.stored
  own := h.own
  order := h.order

/-- A notification keeps the books: it takes a transaction and leaves no request
behind. -/
theorem Books.notify (h : l.Books P conn secret) (hroom : l.asked < 2 ^ 32) (dev : DevId) :
    (l.notify (.unregister · dev)).Books P conn secret where
  secret_eq := h.secret_eq
  next := next_alloc l
  sent := h.sent_send rfl
  told r hr := (h.told r hr).earlier
  known t req ht := (h.known t req ht).earlier
  once := h.once_send hroom rfl
  asks m hm := by
    rcases List.mem_append.mp hm with hm | hm
    · exact h.asks m hm
    · rw [List.mem_singleton.mp hm]
      exact h.lookup_nextTxn hroom
  fits := h.fits
  pending t req tid ht hfor hdone := by
    obtain ⟨herr, hway⟩ := h.pending t req tid ht hfor hdone
    refine ⟨herr, hway.imp_left ?_⟩
    rintro ⟨m, hm, rfl⟩
    exact ⟨m, List.mem_append_left _ hm, rfl⟩
  stored := h.stored
  own := h.own
  order := h.order

/-- A request keeps the books: it stands under the new transaction with the
message that asks for it, and it is not yet done. -/
theorem Books.request (h : l.Books P conn secret) (hroom : l.asked < 2 ^ 32)
    {message : Nat → CtlMessage} {req : Request}
    (htxn : (message l.nextTxn).txn = l.nextTxn) (hasks : Asks (some req) (message l.nextTxn))
    (hdone : req.done = false) (herror : req.error = .none) :
    (l.request message req).Books P conn secret := by
  have hnew : (l.request message req).requests.lookup l.nextTxn = some req :=
    AList.lookup_insert _
  have hold : ∀ t, l.Given t →
      (l.request message req).requests.lookup t = l.requests.lookup t :=
    fun t ht => AList.lookup_insert_ne (ht.ne_next hroom)
  have hback : ∀ t q, (l.request message req).requests.lookup t = some q →
      (t = l.nextTxn ∧ q = req) ∨ (l.Given t ∧ l.requests.lookup t = some q) := by
    intro t q hq
    rcases Decidable.em (t = l.nextTxn) with rfl | hne
    · rw [hnew] at hq
      exact Or.inl ⟨rfl, (Option.some.inj hq).symm⟩
    · have hq' : l.requests.lookup t = some q := (AList.lookup_insert_ne hne).symm.trans hq
      exact Or.inr ⟨h.known t q hq', hq'⟩
  refine ⟨h.secret_eq, next_alloc l, h.sent_send htxn, fun r hr => (h.told r hr).earlier, ?_,
    h.once_send hroom htxn, ?_, ?_, ?_, ?_, h.own, ?_⟩
  · intro t q hq
    rcases hback t q hq with ⟨rfl, -⟩ | ⟨hgiven, -⟩
    · exact .last h.next l.asked
    · exact hgiven.earlier
  · intro m hm
    rcases List.mem_append.mp hm with hm | hm
    · rw [hold _ (h.sent m hm)]
      exact h.asks m hm
    · rw [List.mem_singleton.mp hm, htxn, hnew]
      exact hasks
  · intro r hr
    rw [hold _ (h.told r hr)]
    exact h.fits r hr
  · intro t q tid hq hfor hd
    rcases hback t q hq with ⟨rfl, rfl⟩ | ⟨-, hq'⟩
    · exact ⟨herror, Or.inl ⟨_, List.mem_append_right _ (List.mem_singleton_self _), htxn⟩⟩
    · obtain ⟨herr, hway⟩ := h.pending t q tid hq' hfor hd
      refine ⟨herr, hway.imp_left ?_⟩
      rintro ⟨m, hm, rfl⟩
      exact ⟨m, List.mem_append_left _ hm, rfl⟩
  · intro t q tid hq hfor hd
    rcases hback t q hq with ⟨rfl, rfl⟩ | ⟨-, hq'⟩
    · rw [hdone] at hd
      cases hd
    · exact h.stored t q tid hq' hfor hd
  · intro tid x post hsuf href hheld
    have hmem : ∀ y ∈ x :: post, y ∈ l.toNode := fun y hy => hsuf.subset hy
    rw [hold _ (h.told x (hmem x List.mem_cons_self))] at href
    obtain ⟨y, hy, hgrant⟩ := h.order tid x post hsuf href hheld
    refine ⟨y, hy, ?_⟩
    rw [hold _ (h.told y (hmem y (List.mem_cons_of_mem _ hy)))]
    exact hgrant

/-! ## Requests answered, handed over and erased

The ways a request comes to its end. -/

/-- A message or a reply on its way rules out that its request is done. -/
theorem Books.not_done_of_sent (h : l.Books P conn secret) {m : CtlMessage} (hm : m ∈ l.toServer)
    {req : Request} (hreq : l.requests.lookup m.txn = some req) : req.done = false := by
  have hasks := h.asks m hm
  rw [hreq] at hasks
  cases m with
  | register t b =>
      obtain ⟨q, hq, -, hdone, -⟩ := hasks
      cases hq
      exact hdone
  | keepalive t dev => exact (hasks req rfl).2
  | unregister t dev => cases hasks

/-- While the reply to a registration is on its way, the request is not done:
the reply it will be given is this one. -/
theorem Books.not_done_of_told (h : l.Books P conn secret) {r : CtlReply} (hr : r ∈ l.toNode)
    {req : Request} {tid : TopicId} (hreq : l.requests.lookup r.txn = some req)
    (hfor : req.purpose = .register tid) : req.done = false := by
  have hfits := h.fits r hr
  rw [hreq] at hfits
  cases r with
  | registerOk t dev =>
      obtain ⟨q, -, hq, -, hdone, -⟩ := hfits
      cases hq
      exact hdone
  | keepaliveOk t =>
      obtain ⟨tid', hfor'⟩ := hfits req rfl
      rw [hfor] at hfor'
      cases hfor'
  | unregisterOk t => cases hfits
  | error t code => exact hfits.2 req rfl

/-- The next reply is taken: its request is erased, or done for the call that
waits. -/
theorem Books.settle (h : l.Books P conn secret) {r : CtlReply} {rest : List CtlReply}
    (hto : l.toNode = r :: rest) {requests : AList (fun _ : Nat => Request)}
    (hother : ∀ t, t ≠ r.txn → requests.lookup t = l.requests.lookup t)
    (hown : ∀ req tid, requests.lookup r.txn = some req → req.purpose = .register tid →
      req.done = true ∧ req.loopOwned = false ∧
        (req.error = .none → req.reply = some (devOf P conn secret tid))) :
    { l with toNode := rest, requests := requests }.Books P conn secret := by
  have honce := h.once
  rw [hto, List.map_cons, List.cons_append, List.nodup_cons] at honce
  have hrest : ∀ y ∈ rest, y.txn ≠ r.txn := by
    intro y hy heq
    exact honce.1 (List.mem_append_left _ (heq ▸ List.mem_map_of_mem hy))
  have hsent : ∀ m ∈ l.toServer, m.txn ≠ r.txn := by
    intro m hm heq
    exact honce.1 (List.mem_append_right _ (heq ▸ List.mem_map_of_mem hm))
  have hin : ∀ y ∈ rest, y ∈ l.toNode := by
    intro y hy
    rw [hto]
    exact List.mem_cons_of_mem _ hy
  refine ⟨h.secret_eq, h.next, h.sent, fun y hy => h.told y (hin y hy), ?_, honce.2, ?_, ?_, ?_, ?_,
    h.own, ?_⟩
  · intro t req ht
    rcases Decidable.em (t = r.txn) with rfl | hne
    · refine h.told r ?_
      rw [hto]
      exact List.mem_cons_self
    · exact h.known t req ((hother t hne).symm.trans ht)
  · intro m hm
    simp only [hother _ (hsent m hm)]
    exact h.asks m hm
  · intro y hy
    simp only [hother _ (hrest y hy)]
    exact h.fits y (hin y hy)
  · intro t req tid ht hfor hdone
    rcases Decidable.em (t = r.txn) with rfl | hne
    · rw [(hown req tid ht hfor).1] at hdone
      cases hdone
    · obtain ⟨herr, hway⟩ := h.pending t req tid ((hother t hne).symm.trans ht) hfor hdone
      refine ⟨herr, hway.imp_right ?_⟩
      rintro ⟨y, hy, rfl⟩
      rw [hto] at hy
      rcases List.mem_cons.mp hy with rfl | hy
      · exact absurd rfl hne
      · exact ⟨y, hy, rfl⟩
  · intro t req tid ht hfor hdone
    rcases Decidable.em (t = r.txn) with rfl | hne
    · exact (hown req tid ht hfor).2
    · exact h.stored t req tid ((hother t hne).symm.trans ht) hfor hdone
  · intro tid x post hsuf href hheld
    have hmem : ∀ y ∈ x :: post, y.txn ≠ r.txn := fun y hy => hrest y (hsuf.subset hy)
    simp only [hother _ (hmem x List.mem_cons_self)] at href
    have hsuf' : (x :: post) <:+ l.toNode := by
      rw [hto]
      exact hsuf.trans (List.suffix_cons r rest)
    obtain ⟨y, hy, hgrant⟩ := h.order tid x post hsuf' href hheld
    refine ⟨y, hy, ?_⟩
    simp only [hother _ (hmem y (List.mem_cons_of_mem _ hy))]
    exact hgrant

/-- Who owns a request does not matter to what is on its way. -/
theorem Asks.handOver {req : Request} {m : CtlMessage} (h : Asks (some req) m) :
    Asks (some { req with loopOwned := true }) m := by
  cases m with
  | register _ b =>
      obtain ⟨q, hq, hasked⟩ := h
      cases hq
      exact ⟨_, rfl, hasked⟩
  | keepalive _ dev =>
      intro q hq
      cases hq
      exact h req rfl
  | unregister _ dev => cases h

theorem Fits.handOver {req : Request} {r : CtlReply} (h : Fits P conn secret (some req) r) :
    Fits P conn secret (some { req with loopOwned := true }) r := by
  cases r with
  | registerOk _ dev =>
      obtain ⟨q, tid, hq, hfit⟩ := h
      cases hq
      exact ⟨_, tid, rfl, hfit⟩
  | keepaliveOk _ =>
      intro q hq
      cases hq
      exact h req rfl
  | unregisterOk _ => cases h
  | error _ code =>
      refine ⟨h.1, fun q hq => ?_⟩
      cases hq
      exact h.2 req rfl

/-- A call gives up before its reply came: the loop owns the request now. -/
theorem Books.handOver (h : l.Books P conn secret) {t : Nat} {req : Request}
    (ht : l.requests.lookup t = some req) (hdone : req.done = false) :
    { l with requests := l.requests.insert t { req with loopOwned := true } }.Books
      P conn secret := by
  have hnew : (l.requests.insert t { req with loopOwned := true }).lookup t =
      some { req with loopOwned := true } := AList.lookup_insert _
  have hold : ∀ t', t' ≠ t →
      (l.requests.insert t { req with loopOwned := true }).lookup t' = l.requests.lookup t' :=
    fun t' hne => AList.lookup_insert_ne hne
  have hfor : ∀ t' q tid, (l.requests.insert t { req with loopOwned := true }).lookup t' = some q →
      q.purpose = .register tid → ∃ q', l.requests.lookup t' = some q' ∧
        q'.purpose = .register tid ∧ q'.done = q.done ∧ q'.error = q.error := by
    intro t' q tid hq hp
    rcases Decidable.em (t' = t) with rfl | hne
    · rw [hnew] at hq
      cases hq
      exact ⟨req, ht, hp, rfl, rfl⟩
    · rw [hold t' hne] at hq
      exact ⟨q, hq, hp, rfl, rfl⟩
  have hforth : ∀ (t' : Nat) (tid : TopicId),
      (∃ q, l.requests.lookup t' = some q ∧ q.purpose = .register tid) →
      ∃ q, (l.requests.insert t { req with loopOwned := true }).lookup t' = some q ∧
        q.purpose = .register tid := by
    rintro t' tid ⟨q, hq, hp⟩
    rcases Decidable.em (t' = t) with rfl | hne
    · rw [ht] at hq
      cases hq
      exact ⟨_, hnew, hp⟩
    · exact ⟨q, (hold t' hne).trans hq, hp⟩
  refine ⟨h.secret_eq, h.next, h.sent, h.told, ?_, h.once, ?_, ?_, ?_, ?_, h.own, ?_⟩
  · intro t' q hq
    rcases Decidable.em (t' = t) with rfl | hne
    · exact h.known t' req ht
    · exact h.known t' q ((hold t' hne).symm.trans hq)
  · intro m hm
    have hasks := h.asks m hm
    show Asks ((l.requests.insert t { req with loopOwned := true }).lookup m.txn) m
    rcases Decidable.em (m.txn = t) with heq | hne
    · rw [heq, ht] at hasks
      rw [heq, hnew]
      exact hasks.handOver
    · rw [hold _ hne]
      exact hasks
  · intro r hr
    have hfits := h.fits r hr
    show Fits P conn secret ((l.requests.insert t { req with loopOwned := true }).lookup r.txn) r
    rcases Decidable.em (r.txn = t) with heq | hne
    · rw [heq, ht] at hfits
      rw [heq, hnew]
      exact hfits.handOver
    · rw [hold _ hne]
      exact hfits
  · intro t' q tid hq hp hd
    obtain ⟨q', hq', hp', hdone', herror'⟩ := hfor t' q tid hq hp
    rw [← herror']
    exact h.pending t' q' tid hq' hp' (hdone'.trans hd)
  · intro t' q tid hq hp hd
    rcases Decidable.em (t' = t) with rfl | hne
    · rw [hnew] at hq
      cases hq
      rw [show req.done = true from hd] at hdone
      cases hdone
    · exact h.stored t' q tid ((hold t' hne).symm.trans hq) hp hd
  · intro tid x post hsuf href hheld
    obtain ⟨hx, q, hq, hp⟩ := href
    obtain ⟨q', hq', hp', -⟩ := hfor _ q tid hq hp
    obtain ⟨y, hy, hform, hgrant⟩ := h.order tid x post hsuf ⟨hx, q', hq', hp'⟩ hheld
    exact ⟨y, hy, hform, hforth _ tid hgrant⟩

/-- A request that is done is erased: nothing on its way names it. -/
theorem Books.erase (h : l.Books P conn secret) {t : Nat} {req : Request} {tid : TopicId}
    (ht : l.requests.lookup t = some req) (hfor : req.purpose = .register tid)
    (hdone : req.done = true) : { l with requests := l.requests.erase t }.Books P conn secret := by
  have hsent : ∀ m ∈ l.toServer, m.txn ≠ t := by
    rintro m hm rfl
    rw [h.not_done_of_sent hm ht] at hdone
    cases hdone
  have htold : ∀ r ∈ l.toNode, r.txn ≠ t := by
    rintro r hr rfl
    rw [h.not_done_of_told hr ht hfor] at hdone
    cases hdone
  have hold : ∀ t', t' ≠ t → (l.requests.erase t).lookup t' = l.requests.lookup t' :=
    fun t' hne => AList.lookup_erase_ne hne
  have hback : ∀ t' q, (l.requests.erase t).lookup t' = some q → l.requests.lookup t' = some q := by
    intro t' q hq
    rcases Decidable.em (t' = t) with rfl | hne
    · rw [AList.lookup_erase] at hq
      cases hq
    · exact (hold t' hne).symm.trans hq
  refine ⟨h.secret_eq, h.next, h.sent, h.told, fun t' q hq => h.known t' q (hback t' q hq), h.once,
    ?_, ?_, fun t' q tid' hq => h.pending t' q tid' (hback t' q hq),
    fun t' q tid' hq => h.stored t' q tid' (hback t' q hq), h.own, ?_⟩
  · intro m hm
    simp only [hold _ (hsent m hm)]
    exact h.asks m hm
  · intro r hr
    simp only [hold _ (htold r hr)]
    exact h.fits r hr
  · intro tid' x post hsuf href hheld
    simp only [hold _ (htold x (hsuf.subset List.mem_cons_self))] at href
    obtain ⟨y, hy, hgrant⟩ := h.order tid' x post hsuf href hheld
    refine ⟨y, hy, ?_⟩
    simp only [hold _ (htold y (hsuf.subset (List.mem_cons_of_mem _ hy)))]
    exact hgrant

/-! ## The server

Serving one message, and whatever else becomes of the registry. -/

/-- The server holds a record for the topic under the connection, read off its
view of the registry. -/
theorem held_iff (tid : TopicId) : l.Held conn tid ↔
    ∃ dev s, l.registry.view.record dev = some s ∧ s.owner = conn.key ∧ s.topicId = tid := by
  constructor
  · rintro ⟨dev, e, he, howner, htopic⟩
    exact ⟨dev, e.stub, congrArg (Option.map Entry.stub) he, howner, htopic⟩
  · rintro ⟨dev, s, hs, howner, htopic⟩
    obtain ⟨e, he, rfl⟩ := Option.map_eq_some_iff.mp hs
    exact ⟨dev, e, he, howner, htopic⟩

/-- Does a message on its way decide what becomes of a record of the topic? -/
def Decides (P : Primitives) (conn : ConnView) (secret : SymKey) (tid : TopicId) :
    CtlMessage → Prop
  | .register _ m => m.id = tid
  | .keepalive _ _ => False
  | .unregister _ dev => dev = devOf P conn secret tid

theorem answer_txn (code : ErrorCode) {txn : Nat} {ok : CtlReply} (h : ok.txn = txn) :
    (answer code txn ok).txn = txn := by
  unfold answer
  split
  · exact h
  · rfl

/-- An answer fits the request it is for when the positive one does: an error
grants nothing, so nothing has to be known of it. -/
theorem Fits.of_answer {o : Option Request} {code : ErrorCode} {txn : Nat} {ok : CtlReply}
    (hok : code = .none → Fits P conn secret o ok)
    (hdone : ∀ req, o = some req → req.done = false) :
    Fits P conn secret o (answer code txn ok) := by
  unfold answer
  split
  · rename_i hcode
    exact hok hcode
  · rename_i hcode
    exact ⟨hcode, hdone⟩

/-- A message is answered under its transaction, and a record that is there
behind it is told of in the answer, or was there before and the message did not
decide about it. -/
theorem Books.onMessage (h : l.Books P conn secret) {m : CtlMessage} {rest : List CtlMessage}
    (hto : l.toServer = m :: rest) (now : Instant) :
    let o := l.requests.lookup m.txn
    let res := onMessage P conn l.registry now m
    res.1.txn = m.txn ∧ Fits P conn secret o res.1 ∧ res.2.secret = secret ∧
      ∀ dev s, res.2.view.record dev = some s → s.owner = conn.key →
        dev = devOf P conn secret s.topicId ∧
        (Grant o s.topicId res.1 ∨ (l.registry.view.record dev = some s ∧
          ¬ Refusal o s.topicId res.1 ∧ ¬ Decides P conn secret s.topicId m)) := by
  intro o res
  have hm : m ∈ l.toServer := by
    rw [hto]
    exact List.mem_cons_self
  have hasks : Asks o m := h.asks m hm
  cases m with
  | register t b =>
      obtain ⟨req, hreq, hfor, hdone, herror⟩ := hasks
      have hdev : (l.registry.registerEntry P b conn.src conn.key now).1.devId =
          devOf P conn secret b.id := by
        rw [Registry.devId_registerEntry, h.secret_eq]
        rfl
      have hreply : res.1 = answer (l.registry.registerEntry P b conn.src conn.key now).1.code t
          (.registerOk t (l.registry.registerEntry P b conn.src conn.key now).1.devId) := rfl
      refine ⟨answer_txn _ rfl, Fits.of_answer (fun _ => ?_) ?_, ?_, ?_⟩
      · exact ⟨req, b.id, hreq, hfor, hdone, herror, hdev⟩
      · intro q hq
        rw [hreq] at hq
        cases hq
        exact hdone
      · exact (Registry.secret_registerEntry _ _ _ _ _).trans h.secret_eq
      · intro dev s hs howner
        have hs : (l.registry.registerEntry P b conn.src conn.key now).2.view.record dev = some s := hs
        rcases Registry.record_registerEntry (P := P) l.registry b conn.src conn.key now with
          ⟨hcode, hrec⟩ | ⟨hcode, hnone, hrec⟩
        · rw [hrec, Function.update_apply, h.secret_eq] at hs
          split at hs
          · rename_i hd
            cases hs
            refine ⟨hd, Or.inl ⟨⟨t, devOf P conn secret b.id, ?_⟩, req, hreq, hfor⟩⟩
            rw [hreply, hcode, hdev]
            rfl
          · rename_i hd
            have hold := h.own dev s hs howner
            refine ⟨hold, Or.inr ⟨hs, ?_, ?_⟩⟩
            · rintro ⟨⟨t', c, hform⟩, -⟩
              rw [hreply, hcode] at hform
              cases hform
            · rintro heq
              exact hd (hold.trans (congrArg (devOf P conn secret) heq.symm))
        · rw [hrec] at hs
          have hold := h.own dev s hs howner
          have hother : b.id ≠ s.topicId := by
            intro heq
            rw [h.secret_eq] at hnone
            have hsame : dev = Registry.deriveDevId P secret b.id conn.src := by
              rw [heq]
              exact hold
            rw [hsame, hnone] at hs
            cases hs
          refine ⟨hold, Or.inr ⟨hs, ?_, hother⟩⟩
          rintro ⟨-, q, hq, hforq⟩
          rw [hreq] at hq
          cases hq
          rw [hfor] at hforq
          exact hother (Purpose.register.inj hforq)
  | keepalive t d =>
      have hview : res.2.view = l.registry.view := Registry.view_refresh _ _ _ _
      have hnot : ∀ tid req, o = some req → req.purpose ≠ .register tid := by
        intro tid req hreq hfor
        obtain ⟨⟨tid', hfor'⟩, -⟩ := hasks req hreq
        rw [hfor] at hfor'
        cases hfor'
      refine ⟨answer_txn _ rfl, Fits.of_answer (fun _ req hreq => (hasks req hreq).1)
        (fun req hreq => (hasks req hreq).2), ?_, ?_⟩
      · exact (congrArg View.secret hview).trans h.secret_eq
      · intro dev s hs howner
        rw [hview] at hs
        refine ⟨h.own dev s hs howner, Or.inr ⟨hs, ?_, id⟩⟩
        rintro ⟨-, req, hreq, hfor⟩
        exact hnot _ req hreq hfor
  | unregister t d =>
      obtain ⟨hsub, hgone, hsecret⟩ := Registry.record_unregister l.registry d conn.key
      have hnone : o = none := hasks
      refine ⟨answer_txn _ rfl, Fits.of_answer (fun _ => hnone) ?_, hsecret.trans h.secret_eq, ?_⟩
      · intro req hreq
        rw [hnone] at hreq
        cases hreq
      · intro dev s hs howner
        have hold := h.own dev s (hsub dev s hs) howner
        refine ⟨hold, Or.inr ⟨hsub dev s hs, ?_, ?_⟩⟩
        · rintro ⟨-, req, hreq, -⟩
          rw [hnone] at hreq
          cases hreq
        · intro hd
          have hsame : dev = d := hold.trans (Eq.symm hd)
          rw [hsame] at hs
          exact hgone s hs howner

/-- The server takes the next message, changes its registry and answers.  A
registration asked here is the only step at which a record of this connection
comes to be. -/
theorem Inv.serve (h : l.Inv P conn secret) (now : Instant) :
    (l.serve P conn now).Inv P conn secret := by
  unfold ControlLink.serve
  cases hto : l.toServer with
  | nil => exact h
  | cons m rest =>
      have hb := h.books
      have hmem : ∀ m' ∈ rest, m' ∈ l.toServer := by
        intro m' hm'
        rw [hto]
        exact List.mem_cons_of_mem _ hm'
      have hhead : m ∈ l.toServer := by
        rw [hto]
        exact List.mem_cons_self
      have hserved := hb.onMessage hto now
      rcases hres : onMessage P conn l.registry now m with ⟨reply, r⟩
      simp only [hres] at hserved ⊢
      obtain ⟨htxn, hfits, hsecret, hrecs⟩ := hserved
      -- a record now is told of in the reply, or was there and is answered for already
      have hheld : ∀ tid, { l with
            toServer := rest, toNode := l.toNode ++ [reply], registry := r }.Held conn tid →
          Grant (l.requests.lookup m.txn) tid reply ∨ (l.Held conn tid ∧
            ¬ Refusal (l.requests.lookup m.txn) tid reply ∧ ¬ Decides P conn secret tid m) := by
        intro tid ht
        obtain ⟨dev, s, hs, howner, rfl⟩ := (held_iff tid).mp ht
        rcases (hrecs dev s hs howner).2 with hgrant | ⟨hs', hnot⟩
        · exact Or.inl hgrant
        · exact Or.inr ⟨(held_iff _).mpr ⟨dev, s, hs', howner, rfl⟩, hnot⟩
      refine ⟨⟨hsecret, hb.next, fun m' hm' => hb.sent m' (hmem m' hm'), ?_, hb.known, ?_,
        fun m' hm' => hb.asks m' (hmem m' hm'), ?_, ?_, hb.stored,
        fun dev s hs howner => (hrecs dev s hs howner).1, ?_⟩, h.joined, ?_⟩
      · intro y hy
        rcases List.mem_append.mp hy with hy | hy
        · exact hb.told y hy
        · rw [List.mem_singleton.mp hy, htxn]
          exact hb.sent m hhead
      · have honce := hb.once
        rw [hto, List.map_cons] at honce
        rw [List.map_append, List.map_singleton, htxn, List.append_assoc]
        exact honce
      · intro y hy
        rcases List.mem_append.mp hy with hy | hy
        · exact hb.fits y hy
        · rw [List.mem_singleton.mp hy, htxn]
          exact hfits
      · intro t req tid ht hfor hdone
        obtain ⟨herr, hway⟩ := hb.pending t req tid ht hfor hdone
        refine ⟨herr, ?_⟩
        rcases hway with ⟨m', hm', rfl⟩ | ⟨y, hy, rfl⟩
        · rw [hto] at hm'
          rcases List.mem_cons.mp hm' with rfl | hm'
          · exact Or.inr ⟨reply, List.mem_append_right _ (List.mem_singleton_self _), htxn⟩
          · exact Or.inl ⟨m', hm', rfl⟩
        · exact Or.inr ⟨y, List.mem_append_left _ hy, rfl⟩
      · intro tid x post hsuf href ht
        rcases List.suffix_concat_iff.mp hsuf with hnil | ⟨q, hq, hqsuf⟩
        · cases hnil
        cases q with
        | nil =>
            -- the new reply itself says that there is no record
            cases hq
            rw [htxn] at href
            rcases hheld tid ht with ⟨⟨t, dev, hform⟩, -⟩ | ⟨-, hnot, -⟩
            · obtain ⟨⟨t', c, hform'⟩, -⟩ := href
              rw [hform] at hform'
              cases hform'
            · exact absurd href hnot
        | cons x' q =>
            rw [List.cons_append] at hq
            obtain ⟨rfl, rfl⟩ := List.cons.inj hq
            rcases hheld tid ht with hgrant | ⟨hold, -⟩
            · refine ⟨reply, List.mem_append_right _ (List.mem_singleton_self _), ?_⟩
              rw [htxn]
              exact hgrant
            · obtain ⟨y, hy, hgrant⟩ := hb.order tid x q hqsuf href hold
              exact ⟨y, List.mem_append_left _ hy, hgrant⟩
      · intro tid ht
        rcases hheld tid ht with hgrant | ⟨hold, -, hnot⟩
        · refine .granted (List.mem_append_right _ (List.mem_singleton_self reply)) ?_
          rw [htxn]
          exact hgrant
        · cases h.covered tid hold with
          | @unregistering t hin =>
              rw [hto] at hin
              rcases List.mem_cons.mp hin with heq | hin
              · rw [← heq] at hnot
                exact absurd rfl hnot
              · exact .unregistering hin
          | @registering t b hin hid =>
              rw [hto] at hin
              rcases List.mem_cons.mp hin with heq | hin
              · rw [← heq] at hnot
                exact absurd hid hnot
              · exact .registering hin hid
          | granted hin hy => exact .granted (List.mem_append_left _ hin) hy
          | answered hreq hfor howned hdone herror => exact .answered hreq hfor howned hdone herror
          | published htopic hpub hself => exact .published htopic hpub hself
          | leaving hin hself => exact .leaving hin hself

/-- The secret is drawn once, when the registry is made. -/
theorem secret_step (r : Registry) (op : Registry.Op) : (r.step P op).secret = r.secret := by
  show (r.step P op).view.secret = r.view.secret
  cases op with
  | register msg src owner now => exact Registry.secret_registerEntry r msg src owner now
  | unregister dev owner => exact (Registry.record_unregister r dev owner).2.2
  | dropOwner owner =>
      show (r.dropOwner owner).2.view.secret = r.view.secret
      rw [Registry.view_dropOwner]
      exact View.secret_foldl_remove _ r.view
  | relayAlloc src peer kind owner addr now draws =>
      show (((r.relayAlloc src peer kind owner addr now draws).map (·.2)).getD r).view.secret = _
      cases hr : r.relayAlloc src peer kind owner addr now draws with
      | none => rfl
      | some p => exact congrArg View.secret (Registry.view_relayAlloc hr)
  | refresh dev owner now => exact congrArg View.secret (Registry.view_refresh r dev owner now)
  | update msg owner now => exact congrArg View.secret (Registry.view_update r msg owner now)
  | lookup t max wantMeta now s =>
      exact congrArg View.secret (Registry.view_lookup r t max wantMeta now s)
  | resolve dev now => rfl
  | listTopics cursor limit now => exact congrArg View.secret (Registry.view_expireFresh r now)
  | connectTarget src dst owner =>
      exact congrArg View.secret (Registry.view_connectTarget r src dst owner)
  | relayCharge id bytes now => exact congrArg View.secret (Registry.view_relayCharge r id bytes now)
  | udpBind id token src now =>
      exact congrArg View.secret (Registry.view_udpBind r id token src now)
  | udpForward id src bytes now =>
      exact congrArg View.secret (Registry.view_udpForward r id src bytes now)
  | relayClose id => exact congrArg View.secret (Registry.view_relayClose r id)
  | sweep now =>
      exact congrArg View.secret
        ((Registry.view_releaseWhere _ _).trans (Registry.view_expireFresh r now))
  | stats now => exact congrArg View.secret (Registry.view_expireFresh r now)

/-- What others do to the registry makes no record of this connection. -/
theorem Inv.registry (h : l.Inv P conn secret) {op : Registry.Op}
    (hop : registrar op ≠ some conn.key) :
    { l with registry := l.registry.step P op }.Inv P conn secret := by
  have hb := h.books
  have hheld : ∀ tid, { l with registry := l.registry.step P op }.Held conn tid →
      l.Held conn tid := by
    intro tid ht
    obtain ⟨dev, s, hs, howner, htopic⟩ := (held_iff tid).mp ht
    exact (held_iff tid).mpr ⟨dev, s, Registry.record_step hop hs howner, howner, htopic⟩
  refine ⟨⟨(secret_step _ op).trans hb.secret_eq, hb.next, hb.sent, hb.told, hb.known, hb.once,
    hb.asks, hb.fits, hb.pending, hb.stored, ?_, ?_⟩, h.joined, ?_⟩
  · intro dev s hs howner
    exact hb.own dev s (Registry.record_step hop hs howner) howner
  · intro tid x post hsuf href ht
    exact hb.order tid x post hsuf href (hheld tid ht)
  · intro tid ht
    cases h.covered tid (hheld tid ht) with
    | unregistering hin => exact .unregistering hin
    | registering hin hid => exact .registering hin hid
    | granted hin hy => exact .granted hin hy
    | answered hreq hfor howned hdone herror => exact .answered hreq hfor howned hdone herror
    | published htopic hpub hself => exact .published htopic hpub hself
    | leaving hin hself => exact .leaving hin hself

end UConnect.Node.ControlLink
