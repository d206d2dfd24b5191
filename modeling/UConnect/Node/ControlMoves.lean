/-
  Node/ControlMoves.lean --- what a step of the control loop is made of.

  Every step is a few moves: a request is made or settled, a message goes out
  unasked for, a topic changes, the connection goes down or comes up.
  `step_moves` says so once, with all that is known of each move when it is
  made, and what holds of every run is then shown move by move.

  A connection that comes up is the one step whose order matters: the moves say
  what went out first and raise the state last, when every published topic has
  registered again.
-/
import Mathlib.Logic.Relation
import UConnect.Foundation.Run
import UConnect.Node.ControlMessages

set_option autoImplicit false

namespace UConnect.Node.ControlLoop

open UConnect.Foundation UConnect.Server UConnect.Wire

variable {c c' : ControlLoop} {txn : Nat} {r : Request} {m : Bytes} {tid : TopicId} {ti : Topic}
  {now clock : Instant}

/-! ## Requests

The requests of the loop, the purposes they are made for, and what three kinds
of change leave alone. -/

/-- What at most one request at a time is made for: the keepalive of the
connection, and for each topic its keepalive and its lookup. -/
inductive Flight where
  | conn
  | keepalive (tid : TopicId)
  | discover (tid : TopicId)
  deriving DecidableEq

/-- What a request is alone in. -/
def Request.flight (r : Request) : Option Flight :=
  if r.connKeepalive then some .conn
  else (r.keepaliveFor.map Flight.keepalive).or (r.discoverFor.map Flight.discover)

/-- What every request is like: which of its marks may be set together, what
reply such a request waits for, and whose it is. -/
structure Request.Shaped (r : Request) : Prop where
  owned : r.loopOwned = true → r.done = false
  registers : r.registerFor.isSome = true → r.expect = .registerOk ∧ r.flight = none
  flies : r.flight.isSome = true → r.loopOwned = true
  conn : r.connKeepalive = true → r.keepaliveFor = none
  keepalive : ∀ tid, r.flight = some (.keepalive tid) → r.expect = .keepaliveOk
  discover : ∀ tid, r.flight = some (.discover tid) → r.expect = .lookupOk

/-- Every request of the table is like this. -/
def Shaped (c : ControlLoop) : Prop := ∀ txn r, c.requests.lookup txn = some r → r.Shaped

/-- The request may be made now, with this message. -/
structure Asks (c : ControlLoop) (m : Bytes) (r : Request) : Prop where
  fits : m.length ≤ kMaxFrame
  names : c.nextTxn < 2 ^ 32 → Names c.nextTxn m
  worded : c.nextTxn < 2 ^ 32 → Worded m
  shaped : r.Shaped
  fresh : r.done = false
  registers : ∀ tid, r.registerFor = some tid → IsRegister tid m
  alone : ∀ f, r.flight = some f → ∀ txn r', c.requests.lookup txn = some r' → r'.done = false →
    r'.flight ≠ some f

/-- The message goes out under the next transaction, and the request is
remembered: what every asking function comes to. -/
def asking (c : ControlLoop) (m : Bytes) (r : Request) : ControlLoop :=
  { c.allocTxn.queue m with requests := c.requests.insert c.nextTxn r }

/-- A message has been heard.  This is history only, and no function reads it. -/
def hearing (c : ControlLoop) (m : Bytes) : ControlLoop := { c with heard := c.heard ++ [m] }

/-- The connection is up, with a new reader and the delay back at its start. -/
def rising (c : ControlLoop) : ControlLoop :=
  { c with
    ctlState := .up
    reconnectBackoff := kReconnectMin
    ctlReader := {}
    ups := c.ups + 1
    failures := 0 }

/-! ## Moves

The kinds of change, each with what is known when it is made. -/

/-- A part of a step.  There is one constructor for each thing that a step can
do, with everything that is known where it is done; the invariants are proved
for these. -/
inductive Move (c : ControlLoop) : ControlLoop → Prop where
  | notes (next : Instant) (addr : Option Endpoint) (reader : FrameReader) (leaving : List Topic) :
      Move c { c with
        nextCtlKeepalive := next, srflx := addr, ctlReader := reader, leaving := leaving }
  | hears (m : Bytes) : Move c (c.hearing m)
  | asks (m : Bytes) (r : Request) (h : c.Asks m r) : Move c (c.asking m r)
  | tells (m : Bytes) (hm : m.length ≤ kMaxFrame) (hworded : c.nextTxn < 2 ^ 32 → Worded m) :
      Move c (c.allocTxn.queue m)
  /-- The loop registers a topic again. -/
  | registers (tid : TopicId) (ti : Topic) (hti : c.topics.lookup tid = some ti) (m : Bytes)
      (r : Request) (h : c.Asks m r) (hfor : r.registerFor = some tid)
      (howned : r.loopOwned = true) :
      Move c ((c.setTopic tid { ti with reregistering := true }).asking m r)
  /-- A request of the loop is answered. -/
  | settles (m : Bytes) (txn : Nat) (r : Request) (hr : c.requests.lookup txn = some r)
      (howned : r.loopOwned = true) (hnames : Names txn m)
      (hreg : ∀ tid, r.registerFor = some tid →
        (∀ ti, c.topics.lookup tid = some ti → ti.reregistering = false) ∨ faulty m = true) :
      Move c { c.hearing m with requests := c.requests.erase txn }
  /-- A caller's request is answered. -/
  | answers (m : Bytes) (txn : Nat) (r : Request) (error : Nat) (reply : Bytes)
      (hr : c.requests.lookup txn = some r) (hcalls : r.loopOwned = false)
      (herror : error = r.error ∨ error ≠ ErrorCode.none.code ∨ faulty m = true) :
      Move c { c.hearing m with
        requests := c.requests.insert txn { r with done := true, error := error, reply := reply } }
  /-- A call gives up, and leaves its request to the loop. -/
  | adopts (txn : Nat) (r : Request) (deadline : Instant) (hr : c.requests.lookup txn = some r)
      (hcalls : r.loopOwned = false) (hwaits : r.done = false) :
      Move c { c with
        requests := c.requests.insert txn { r with loopOwned := true, deadline := deadline } }
  /-- A call takes its request back. -/
  | drops (txn : Nat) (r : Request) (hr : c.requests.lookup txn = some r)
      (hcalls : r.loopOwned = false) : Move c { c with requests := c.requests.erase txn }
  | changes (tid : TopicId) (ti ti' : Topic) (hti : c.topics.lookup tid = some ti)
      (hpub : ti'.published = true → ti.published = true)
      (hrereg : ti'.reregistering = true → ti.reregistering = true) : Move c (c.setTopic tid ti')
  | joins (tid : TopicId) (ti : Topic) (hpub : ti.published = false)
      (hrereg : ti.reregistering = false) : Move c (c.setTopic tid ti)
  /-- A REGISTER of a call has succeeded. -/
  | publishes (tid : TopicId) (ti : Topic) (hrereg : ti.reregistering = false)
      (hgranted : ∃ txn r, c.requests.lookup txn = some r ∧ r.registerFor = some tid ∧
        r.error = ErrorCode.none.code) : Move c (c.setTopic tid ti)
  | leaves (tid : TopicId) (ti : Topic) :
      Move c { c with topics := c.topics.erase tid, leaving := c.leaving ++ [ti] }
  | sends (n : Nat) (hup : c.ctlState = .up) :
      Move c { c with ctlOut := c.ctlOut.drop n, written := c.written ++ c.ctlOut.take n }
  | downs (now : Instant) (hstate : c.ctlState ≠ .down) : Move c (c.onControlDown now)
  | fails (now : Instant) (hstate : c.ctlState = .down) (hdue : c.nextReconnect ≤ now) :
      Move c { c with
        nextReconnect := now + c.reconnectBackoff
        reconnectBackoff := nextBackoff c.reconnectBackoff
        failures := c.failures + 1
        lastDown := now }
  | dials (now : Instant) (hstate : c.ctlState = .down) (hdue : c.nextReconnect ≤ now) :
      Move c { c with ctlState := .connecting, ctlConnectDeadline := now + kControlTimeout }
  /-- The connection is up, and every published topic registers again. -/
  | ups (hstate : c.ctlState = .connecting)
      (hall : ∀ tid ti, c.topics.lookup tid = some ti → ti.published = true →
        ti.reregistering = true) : Move c c.rising

/-- Any number of moves, one after the other. -/
abbrev Moves : ControlLoop → ControlLoop → Prop := Relation.ReflTransGen Move

theorem Move.moves (h : Move c c') : Moves c c' := Relation.ReflTransGen.single h

/-! ## Requests that are made

Each request, with its message and its purpose. -/

theorem Request.flight_keepalive (h : r.keepaliveFor = some tid) : r.flight.isSome = true := by
  unfold flight
  rw [h]
  split <;> rfl

/-- A request is for a REGISTER or for a keepalive, never for both. -/
theorem Request.Shaped.keepaliveFor_of_register (h : r.Shaped) (hfor : r.registerFor = some tid) :
    r.keepaliveFor = none := by
  have hflight := (h.registers (Option.isSome_of_eq_some hfor)).2
  cases hkeep : r.keepaliveFor with
  | none => rfl
  | some tid' =>
      have hflies := Request.flight_keepalive hkeep
      rw [hflight] at hflies
      cases hflies

/-- A request sent as a keepalive registers nothing: the two marks are never set
on one request, so a reply to it takes only one of the branches of
`apply_reply`. -/
theorem Request.Shaped.registerFor_of_keepalive (h : r.Shaped) (hkeep : r.keepaliveFor = some tid) :
    r.registerFor = none := by
  cases hfor : r.registerFor with
  | none => rfl
  | some tid' =>
      rw [h.keepaliveFor_of_register hfor] at hkeep
      cases hkeep

/-- The reply to a REGISTER is not taken for that to a keepalive. -/
theorem Request.Shaped.quiet (h : r.Shaped) (hfor : r.registerFor = some tid) :
    ¬ (r.keepaliveFor.isSome || r.connKeepalive) = true := by
  have hflight := (h.registers (Option.isSome_of_eq_some hfor)).2
  rw [h.keepaliveFor_of_register hfor]
  intro hconn
  unfold Request.flight at hflight
  rw [if_pos (by simpa using hconn)] at hflight
  cases hflight

/-- A request that nothing else waits for may be made at any time. -/
theorem Asks.plain {body : Writer → Writer} (hbody : Plain body) (c : ControlLoop) {type : MsgType}
    (htype : Asked type) (flags : UInt8) (hshaped : r.Shaped)
    (hfresh : r.done = false) (hfor : r.registerFor = none)
    (hflight : r.flight = none) : c.Asks (message type c.nextTxn body flags) r where
  fits := length_message hbody type _ flags
  names htxn := names_message hbody htype.1 htxn flags
  worded htxn := worded_of_not_about
    (about_message hbody htype.1 htype.2.1 htype.2.2.2 htype.2.2.1 htxn flags)
  shaped := hshaped
  fresh := hfresh
  registers _ h := by rw [hfor] at h; cases h
  alone _ h := by rw [hflight] at h; cases h

/-- A `REGISTER` queued under a fresh transaction, with the request that waits
for its `RegisterOk`, is one of the ways a move may ask. -/
theorem Asks.register (c : ControlLoop) {reg : Register} (hid : reg.id = tid) {flags : UInt8}
    (hflags : flags = if reg.unlisted then kUnlisted else 0)
    (hexpect : r.expect = .registerOk) (hfresh : r.done = false) (hfor : r.registerFor = some tid)
    (hflight : r.flight = none) :
    c.Asks (message .register c.nextTxn (Register.encode reg) flags) r where
  fits := length_message (plain_register reg) _ _ flags
  names htxn := names_message (plain_register reg) (by decide) htxn flags
  worded _ := hflags ▸ worded_bytes (.register c.nextTxn reg)
  shaped :=
    { owned _ := hfresh
      registers _ := ⟨hexpect, hflight⟩
      flies h := by rw [hflight] at h; cases h
      conn h := by
        unfold Request.flight at hflight
        rw [if_pos h] at hflight
        cases hflight
      keepalive _ h := by rw [hflight] at h; cases h
      discover _ h := by rw [hflight] at h; cases h }
  fresh := hfresh
  registers tid' h := by
    cases hfor.symm.trans h
    exact ⟨_, reg, flags, rfl, hid⟩
  alone _ h := by rw [hflight] at h; cases h

/-- A published topic that is not yet registering is marked, and its
registration is asked for; any other is left alone. -/
theorem reregister_moves (c : ControlLoop) (clock : Instant) (tid : TopicId) :
    Moves c (c.reregister clock tid) := by
  unfold reregister
  cases hti : c.topics.lookup tid with
  | none => exact .refl
  | some ti =>
      dsimp only
      split
      · have hasks : c.Asks
            (message .register c.nextTxn
              (Register.encode (c.registerMessage tid { ti with reregistering := true }))
              (registerFlags ti))
            { expect := .registerOk, registerFor := some tid, loopOwned := true,
              deadline := clock + kControlTimeout } :=
          Asks.register c rfl rfl rfl rfl rfl rfl
        exact (Move.registers tid ti hti _ _ hasks rfl rfl).moves
      · exact .refl

/-! ## Coming up

The moves of the one step whose order matters. -/

/-- The connection's own keepalive: put off while one is pending, else one
request. -/
theorem sendConnKeepalive_moves (c : ControlLoop) (now : Instant) :
    Moves c (c.sendConnKeepalive now) := by
  have hnotes : Moves c { c with nextCtlKeepalive := now + c.keepalive } :=
    (Move.notes (now + c.keepalive) c.srflx c.ctlReader c.leaving).moves
  unfold sendConnKeepalive
  dsimp only
  split
  · exact hnotes
  · rename_i hnone
    refine hnotes.tail (Move.asks (emptyMessage .keepalive c.nextTxn)
      { expect := .keepaliveOk, connKeepalive := true, loopOwned := true,
        deadline := now + kControlTimeout } ?_)
    refine ⟨length_emptyMessage _ _, names_emptyMessage (by decide), fun htxn => ?_, ?_, rfl,
      fun tid h => ?_, ?_⟩
    · exact worded_of_not_about (about_emptyMessage (by decide) (by decide) (by decide) htxn)
    · exact ⟨fun _ => rfl, fun h => (by cases h), fun _ => rfl, fun _ => rfl,
        fun tid h => (by cases h), fun tid h => (by cases h)⟩
    · cases h
    · intro f hf txn r' hr' hwaits hflight
      cases hf
      have hconn : r'.connKeepalive = true := by
        unfold Request.flight at hflight
        split at hflight
        · assumption
        · cases hk : r'.keepaliveFor <;> cases hd : r'.discoverFor <;>
            simp [hk, hd] at hflight
      refine hnone (List.any_eq_true.mpr ⟨⟨txn, r'⟩, AList.mem_lookup_iff.mp hr', ?_⟩)
      simp [hconn, hwaits]

/-- The keepalive neither reads nor writes what `rising` writes, so it may be
taken first. -/
theorem rising_sendConnKeepalive (c : ControlLoop) (now : Instant) :
    c.rising.sendConnKeepalive now = (c.sendConnKeepalive now).rising := by
  unfold sendConnKeepalive
  dsimp only [rising]
  split <;> rfl

theorem rising_reregister (c : ControlLoop) (clock : Instant) (tid : TopicId) :
    c.rising.reregister clock tid = (c.reregister clock tid).rising := by
  unfold reregister
  dsimp only [rising]
  cases c.topics.lookup tid with
  | none => rfl
  | some ti =>
      dsimp only
      split <;> rfl

/-- Going over the topics commutes with the step to `Connected`, since
registering one topic does. -/
theorem rising_foldl (c : ControlLoop) (clock : Instant) (ids : List TopicId) :
    ids.foldl (reregister · clock) c.rising = (ids.foldl (reregister · clock) c).rising := by
  induction ids generalizing c with
  | nil => rfl
  | cons tid ids ih => rw [List.foldl_cons, List.foldl_cons, rising_reregister, ih]

/-- One pass over any list of topics is a run of moves. -/
theorem foldl_reregister_moves (c : ControlLoop) (clock : Instant) (ids : List TopicId) :
    Moves c (ids.foldl (reregister · clock) c) := by
  induction ids generalizing c with
  | nil => exact .refl
  | cons tid ids ih => exact (reregister_moves c clock tid).trans (ih _)

/-- The topic is not published, or registers again. -/
def Registers (c : ControlLoop) (tid : TopicId) : Prop :=
  ∀ ti, c.topics.lookup tid = some ti → ti.published = true → ti.reregistering = true

/-- Asking for `tid` queues its `REGISTER`; asking for another topic leaves the
one already queued for `tid` where it is. -/
theorem registers_reregister (c : ControlLoop) (clock : Instant) {tid tid' : TopicId}
    (h : tid = tid' ∨ c.Registers tid) : (c.reregister clock tid').Registers tid := by
  unfold reregister
  cases hti : c.topics.lookup tid' with
  | none =>
      intro ti' hti' hpub
      rcases h with rfl | h
      · cases hti.symm.trans hti'
      · exact h ti' hti' hpub
  | some ti =>
      dsimp only
      split
      · intro ti' hti' hpub
        have hlookup : (c.topics.insert tid' { ti with reregistering := true }).lookup tid =
            some ti' := hti'
        rw [lookup_insert_ite] at hlookup
        split at hlookup
        · cases hlookup
          rfl
        · rename_i hne
          exact h.resolve_left hne ti' hlookup hpub
      · rename_i hskip
        intro ti' hti' hpub
        rcases h with rfl | h
        · cases hti.symm.trans hti'
          simpa [hpub] using hskip
        · exact h ti' hti' hpub

/-- By induction on the list: a topic among those gone over, or registered
before the pass began, has its `REGISTER` queued behind it. -/
theorem registers_foldl (c : ControlLoop) (clock : Instant) {ids : List TopicId}
    (h : tid ∈ ids ∨ c.Registers tid) : (ids.foldl (reregister · clock) c).Registers tid := by
  induction ids generalizing c with
  | nil => exact h.resolve_left List.not_mem_nil
  | cons tid' ids ih =>
      refine ih _ ?_
      rcases h with hmem | h
      · rcases List.mem_cons.mp hmem with heq | hmem
        · exact .inr (registers_reregister c clock (.inl heq))
        · exact .inl hmem
      · exact .inr (registers_reregister c clock (.inr h))

@[simp] theorem sendConnKeepalive_ctlState (c : ControlLoop) (now : Instant) :
    (c.sendConnKeepalive now).ctlState = c.ctlState := by
  unfold sendConnKeepalive
  dsimp only
  split <;> rfl

@[simp] theorem reregister_ctlState (c : ControlLoop) (clock : Instant) (tid : TopicId) :
    (c.reregister clock tid).ctlState = c.ctlState := by
  unfold reregister
  cases c.topics.lookup tid with
  | none => rfl
  | some ti =>
      dsimp only
      split <;> rfl

@[simp] theorem foldl_reregister_ctlState (c : ControlLoop) (clock : Instant)
    (ids : List TopicId) : (ids.foldl (reregister · clock) c).ctlState = c.ctlState := by
  induction ids generalizing c with
  | nil => rfl
  | cons tid ids ih => rw [List.foldl_cons, ih, reregister_ctlState]

theorem mem_topicIds (h : c.topics.lookup tid = some ti) : tid ∈ c.topicIds :=
  (List.perm_insertionSort _ _).mem_iff.mpr
    (AList.mem_keys.mp (AList.lookup_isSome.mp (Option.isSome_of_eq_some h)))

/-- What `drive_connecting` does when the socket is writable: the state becomes
`Connected`, the keepalive is queued, and every topic that is published is
registered again. -/
theorem connected_moves (hstate : c.ctlState = .connecting) (now clock : Instant) :
    Moves c ((c.rising.sendConnKeepalive now).topicIds.foldl (reregister · clock)
      (c.rising.sendConnKeepalive now)) := by
  rw [rising_sendConnKeepalive, rising_foldl]
  refine ((sendConnKeepalive_moves c now).trans
    (foldl_reregister_moves _ clock (c.sendConnKeepalive now).rising.topicIds)).tail (Move.ups ?_ ?_)
  · rw [foldl_reregister_ctlState, sendConnKeepalive_ctlState]
    exact hstate
  · intro tid
    refine registers_foldl _ clock ?_
    by_cases hmem : tid ∈ (c.sendConnKeepalive now).rising.topicIds
    · exact .inl hmem
    · exact .inr fun ti hti => absurd (mem_topicIds (c := (c.sendConnKeepalive now).rising) hti) hmem

/-! ## Topics

Changes of a topic that are not about a request. -/

/-- Clearing the flag of a topic is a change of it. -/
theorem clearReregistering_moves (c : ControlLoop) (tid : TopicId) :
    Moves c { c with topics := clearReregistering c.topics tid } := by
  unfold clearReregistering modifyAt
  cases hti : c.topics.lookup tid with
  | none => exact .refl
  | some ti => exact (Move.changes tid ti { ti with reregistering := false } hti id
      fun h => absurd h Bool.false_ne_true).moves

/-- The topic cleared, whatever it held before, is no longer waiting for a
re-registration. -/
theorem clearReregistering_cleared (topics : AList (fun _ : TopicId => Topic)) (tid : TopicId) :
    ∀ ti, (clearReregistering topics tid).lookup tid = some ti → ti.reregistering = false := by
  intro ti hti
  rw [clearReregistering, lookup_modifyAt, if_pos rfl] at hti
  obtain ⟨old, -, rfl⟩ := Option.map_eq_some_iff.mp hti
  rfl

/-! ## Replies

A reply settles its request and may change the topic it was made for. -/

/-- `hearing` only appends to the messages heard, which no branch of a reply's
processing reads; this lemma and those like it move it to the outside. -/
theorem hearing_removeRecord (c : ControlLoop) (m : Bytes) (tid : TopicId) (dev : DevId) :
    (c.hearing m).removeRecord tid dev = (c.removeRecord tid dev).hearing m := by
  unfold removeRecord
  have hsame : (c.hearing m).publishing tid = c.publishing tid := rfl
  rw [hsame]
  split <;> rfl

theorem hearing_applyRegister (c : ControlLoop) (m : Bytes) (tid : TopicId) (ok : RegisterOk)
    (now : Instant) :
    (c.hearing m).applyRegister tid ok now = (c.applyRegister tid ok now).hearing m := by
  unfold applyRegister
  dsimp only [hearing]
  cases c.topics.lookup tid with
  | none => exact hearing_removeRecord { c with srflx := some ok.srflx } m tid ok.devId
  | some ti =>
      dsimp only
      split
      · rfl
      · exact hearing_removeRecord ({ c with srflx := some ok.srflx }.setTopic tid
          { ti with reregistering := false }) m tid ok.devId

theorem hearing_applyReply (c : ControlLoop) (m : Bytes) (req : Request) (r : Reader)
    (now : Instant) : (c.hearing m).applyReply req r now = (c.applyReply req r now).hearing m := by
  unfold applyReply
  split
  · cases KeepaliveOk.decode.run r <;> rfl
  · cases req.registerFor with
    | none => rfl
    | some tid =>
        cases RegisterOk.decode.run r with
        | none => rfl
        | some ok => exact hearing_applyRegister c m tid ok.1 now

/-- A record that nobody wants is given back by a notice, unless a call of
`publish` is still waiting to take it. -/
theorem removeRecord_moves (c : ControlLoop) (tid : TopicId) (dev : DevId) :
    Moves c (c.removeRecord tid dev) := by
  unfold removeRecord
  split
  · exact .refl
  · exact (Move.tells _ (length_message (plain_devRef { devId := dev }) _ _ _)
      fun _ => worded_bytes (.unregister c.nextTxn dev)).moves

@[simp] theorem removeRecord_requests (c : ControlLoop) (tid : TopicId) (dev : DevId) :
    (c.removeRecord tid dev).requests = c.requests := by
  unfold removeRecord
  split <;> rfl

@[simp] theorem removeRecord_topics (c : ControlLoop) (tid : TopicId) (dev : DevId) :
    (c.removeRecord tid dev).topics = c.topics := by
  unfold removeRecord
  split <;> rfl

/-- A `RegisterOk` heard by the loop: the topic takes the record, or the record
is given back. -/
theorem applyRegister_moves (c : ControlLoop) (tid : TopicId) (ok : RegisterOk) (now : Instant) :
    Moves c (c.applyRegister tid ok now) := by
  have hnotes : Moves c { c with srflx := some ok.srflx } :=
    (Move.notes c.nextCtlKeepalive (some ok.srflx) c.ctlReader c.leaving).moves
  unfold applyRegister
  dsimp only
  cases hti : c.topics.lookup tid with
  | none => exact hnotes.trans (removeRecord_moves _ tid ok.devId)
  | some ti =>
      dsimp only
      split
      · exact hnotes.tail (Move.changes tid ti _ hti id fun h => absurd h Bool.false_ne_true)
      · exact (hnotes.tail (Move.changes tid ti { ti with reregistering := false } hti id
          fun h => absurd h Bool.false_ne_true)).trans (removeRecord_moves _ tid ok.devId)

@[simp] theorem applyRegister_requests (c : ControlLoop) (tid : TopicId) (ok : RegisterOk)
    (now : Instant) : (c.applyRegister tid ok now).requests = c.requests := by
  unfold applyRegister
  dsimp only
  cases c.topics.lookup tid with
  | none => exact removeRecord_requests _ tid ok.devId
  | some ti =>
      dsimp only
      split
      · rfl
      · exact removeRecord_requests _ tid ok.devId

/-- After a `RegisterOk` the topic may be registered again, which is the mark
`reregister` tests. -/
theorem applyRegister_cleared (c : ControlLoop) (tid : TopicId) (ok : RegisterOk) (now : Instant) :
    ∀ ti, (c.applyRegister tid ok now).topics.lookup tid = some ti → ti.reregistering = false := by
  intro ti hti
  unfold applyRegister at hti
  dsimp only at hti
  cases hold : c.topics.lookup tid with
  | none =>
      rw [hold] at hti
      dsimp only at hti
      rw [removeRecord_topics] at hti
      cases hold.symm.trans hti
  | some old =>
      rw [hold] at hti
      dsimp only at hti
      split at hti
      · cases (AList.lookup_insert _).symm.trans hti
        rfl
      · rw [removeRecord_topics] at hti
        cases (AList.lookup_insert _).symm.trans hti
        rfl

/-- What the reply to a request of the loop does before the request goes. -/
theorem applyReply_moves (c : ControlLoop) (req : Request) (r : Reader) (now : Instant) :
    Moves c (c.applyReply req r now) ∧ (c.applyReply req r now).requests = c.requests := by
  unfold applyReply
  split
  · cases KeepaliveOk.decode.run r with
    | none => exact ⟨.refl, rfl⟩
    | some ok => exact ⟨(Move.notes c.nextCtlKeepalive (some ok.1.srflx) c.ctlReader
        c.leaving).moves, rfl⟩
  · cases req.registerFor with
    | none => exact ⟨.refl, rfl⟩
    | some tid =>
        cases RegisterOk.decode.run r with
        | none => exact ⟨.refl, rfl⟩
        | some ok => exact ⟨applyRegister_moves c tid ok.1 now, applyRegister_requests c tid ok.1 now⟩

/-- A reply to a REGISTER of the loop clears the flag, if it is one. -/
theorem applyReply_cleared (c : ControlLoop) {req : Request} {rd : Reader} {ok : RegisterOk × Reader}
    (hshaped : req.Shaped) (hfor : req.registerFor = some tid)
    (hok : RegisterOk.decode.run rd = some ok) (now : Instant) :
    ∀ ti, (c.applyReply req rd now).topics.lookup tid = some ti → ti.reregistering = false := by
  intro ti hti
  unfold applyReply at hti
  rw [if_neg (hshaped.quiet hfor), hfor] at hti
  dsimp only at hti
  rw [hok] at hti
  exact applyRegister_cleared c tid ok.1 now ti hti

theorem hearing_refuseRegister (c : ControlLoop) (m : Bytes) (req : Request) :
    (c.hearing m).refuseRegister req = (c.refuseRegister req).hearing m := by
  unfold refuseRegister
  cases req.registerFor <;> rfl

/-- What a refused REGISTER does before the request is settled. -/
theorem refuseRegister_moves (c : ControlLoop) (req : Request) :
    Moves c (c.refuseRegister req) ∧ (c.refuseRegister req).requests = c.requests ∧
      ∀ tid, req.registerFor = some tid →
        ∀ ti, (c.refuseRegister req).topics.lookup tid = some ti → ti.reregistering = false := by
  unfold refuseRegister
  cases req.registerFor with
  | none => exact ⟨.refl, rfl, fun tid h => by cases h⟩
  | some tid =>
      refine ⟨clearReregistering_moves c tid, rfl, fun tid' h => ?_⟩
      cases h
      exact clearReregistering_cleared c.topics tid

/-- An `Error` reply to a request.  It may ask again at once (a refused
keepalive registers its topic anew), so the request answered has to be known to
be well shaped. -/
theorem onError_moves {req : Request} {code : Nat} (hshaped : req.Shaped)
    (hr : c.requests.lookup txn = some req) (hnames : Names txn m)
    (hcode : code ≠ ErrorCode.none.code ∨ faulty m = true) (clock : Instant) :
    Moves c ((c.hearing m).onError txn req code clock) := by
  unfold onError
  split
  · -- the record is gone: this request is forgotten and the topic registers again
    rename_i tid hagain
    have hkeep : req.keepaliveFor = some tid := (Option.filter_eq_some_iff.mp hagain).1
    have hflies := Request.flight_keepalive hkeep
    have hnone := hshaped.registerFor_of_keepalive hkeep
    have hsettles := Move.settles m txn req hr (hshaped.flies hflies) hnames
      fun tid' hfor => by rw [hnone] at hfor; cases hfor
    exact hsettles.moves.trans (reregister_moves _ clock tid)
  · obtain ⟨hmoves, hsame, hclear⟩ := refuseRegister_moves c req
    have hrd : (c.refuseRegister req).requests.lookup txn = some req := by
      rw [hsame]
      exact hr
    dsimp only
    rw [hearing_refuseRegister]
    split
    · rename_i howned
      exact hmoves.tail (Move.settles m txn req hrd howned hnames
        fun tid hfor => .inl (hclear tid hfor))
    · rename_i hcalls
      exact hmoves.tail (Move.answers m txn req code req.reply hrd (by simpa using hcalls)
        (.inr hcode))

/-- A whole control message, decoded, matched with its request and applied, is a
run of moves. -/
theorem onControlMessage_moves (hshaped : c.Shaped) (m : Bytes) (now clock : Instant) :
    Moves c (c.onControlMessage m now clock) := by
  have hhears : Moves c (c.hearing m) := (Move.hears m).moves
  unfold onControlMessage
  dsimp only
  split
  · exact hhears
  · rename_i h rd hdecode
    split
    · exact hhears
    · split
      · exact hhears
      · rename_i req hreq
        have hr : c.requests.lookup h.txnId = some req := hreq
        have hnames : Names h.txnId m := by
          unfold Names
          rw [hdecode]
          rfl
        have hreqShaped := hshaped h.txnId req hr
        split
        · -- an error
          rename_i herror
          refine onError_moves hreqShaped hr hnames ?_ clock
          cases hrun : Error.decode.run rd with
          | none => exact .inl (by decide)
          | some e =>
              by_cases hcode : e.1.code = ErrorCode.none.code
              · exact .inr (faulty_error hdecode herror hrun hcode)
              · exact .inl hcode
        · split
          · exact hhears
          · rename_i hexpect
            split
            · -- the loop applies the reply and forgets the request
              rename_i howned
              have happly : (c.hearing m).applyReply req rd now =
                  (c.applyReply req rd now).hearing m := hearing_applyReply c m req rd now
              obtain ⟨hmoves, hsame⟩ := applyReply_moves c req rd now
              have hrd : (c.applyReply req rd now).requests.lookup h.txnId = some req := by
                rw [hsame]
                exact hr
              show Moves c { (c.hearing m).applyReply req rd now with
                requests := ((c.hearing m).applyReply req rd now).requests.erase h.txnId }
              rw [happly]
              refine hmoves.tail (Move.settles m h.txnId req hrd howned hnames fun tid hfor => ?_)
              cases hok : RegisterOk.decode.run rd with
              | some ok => exact .inl (applyReply_cleared c hreqShaped hfor hok now)
              | none =>
                  have htype : h.type = .registerOk := by
                    have hwant := (hreqShaped.registers (Option.isSome_of_eq_some hfor)).1
                    rw [← hwant]
                    exact not_not.mp hexpect
                  exact .inr (faulty_registerOk hdecode htype hok)
            · rename_i hcalls
              exact (Move.answers m h.txnId req req.error m hr (by simpa using hcalls)
                (.inl rfl)).moves

/-! ## What `tick` sends

Requests and messages that are made when they are due and none like them waits. -/

/-- Nothing is in flight that would be doubled. -/
theorem alone_of_not_pending (hshaped : c.Shaped) {expect : MsgType} {f : Flight}
    (hexpect : ∀ r : Request, r.Shaped → r.flight = some f → r.expect = expect)
    (hfor : ∀ r : Request, r.flight = some f → r.keepaliveFor = some tid ∨ r.discoverFor = some tid)
    (hnone : ¬ c.topicRequestPending tid expect = true) :
    ∀ txn r, c.requests.lookup txn = some r → r.done = false → r.flight ≠ some f := by
  intro txn r hr hwaits hflight
  refine hnone (List.any_eq_true.mpr ⟨⟨txn, r⟩, AList.mem_lookup_iff.mp hr, ?_⟩)
  have hwant := hexpect r (hshaped txn r hr) hflight
  rcases hfor r hflight with hk | hd
  · simp [hwaits, hwant, hk]
  · simp [hwaits, hwant, hd]

theorem Request.keepaliveFor_of_flight (h : r.flight = some (.keepalive tid)) :
    r.keepaliveFor = some tid := by
  unfold flight at h
  split at h
  · cases h
  · cases hk : r.keepaliveFor with
    | none =>
        rw [hk] at h
        cases hd : r.discoverFor <;> rw [hd] at h <;> cases h
    | some tid' =>
        rw [hk] at h
        cases h
        rfl

theorem Request.discoverFor_of_flight (h : r.flight = some (.discover tid)) :
    r.discoverFor = some tid := by
  unfold flight at h
  split at h
  · cases h
  · cases hk : r.keepaliveFor with
    | none =>
        rw [hk] at h
        cases hd : r.discoverFor with
        | none =>
            rw [hd] at h
            cases h
        | some tid' =>
            rw [hd] at h
            cases h
            rfl
    | some tid' =>
        rw [hk] at h
        cases h

/-- The keepalive of one topic: skipped while one is under way, else one request
under a new transaction. -/
theorem topicKeepalive_moves (hshaped : c.Shaped) (tid : TopicId) (now clock : Instant) :
    Moves c (c.topicKeepalive tid now clock) := by
  unfold topicKeepalive
  cases hti : c.topics.lookup tid with
  | none => exact .refl
  | some ti =>
      dsimp only
      cases ti.self with
      | none => exact .refl
      | some dev =>
          dsimp only
          split
          · exact .refl
          · rename_i hdue
            have hnone : ¬ c.topicRequestPending tid .keepaliveOk = true := by
              intro hpending
              exact hdue (by rw [hpending, Bool.or_true])
            have hasks : c.Asks
                (message .keepalive c.nextTxn (DevRef.encode { devId := dev }) 0)
                { expect := .keepaliveOk, keepaliveFor := some tid, loopOwned := true,
                  deadline := clock + kControlTimeout } :=
              { fits := length_message (plain_devRef { devId := dev }) _ _ _
                names := fun htxn =>
                  names_message (plain_devRef { devId := dev }) (by decide) htxn 0
                worded := fun _ => worded_bytes (.keepalive c.nextTxn dev)
                shaped := ⟨fun _ => rfl, fun h => (by cases h), fun _ => rfl, fun h => (by cases h),
                  fun _ _ => rfl, fun _ h => (by cases h)⟩
                fresh := rfl
                registers := fun _ h => (by cases h)
                alone := by
                  intro f hf
                  cases hf
                  exact alone_of_not_pending hshaped (fun r hr h => hr.keepalive tid h)
                    (fun r h => .inl (Request.keepaliveFor_of_flight h)) hnone }
            exact (Move.asks _ _ hasks).moves.tail (Move.changes tid ti _ hti id id)

/-- The lookup of a topic that connects by itself: skipped where none is due or
one is pending, else one request. -/
theorem discover_moves (hshaped : c.Shaped) (tid : TopicId) (full : Bool) (now clock : Instant) :
    Moves c (c.discover tid full now clock) := by
  unfold discover
  cases hti : c.topics.lookup tid with
  | none => exact .refl
  | some ti =>
      dsimp only
      split
      · exact .refl
      · have hchanges : Moves c
            (c.setTopic tid { ti with nextDiscovery := now + kDiscoveryInterval }) :=
          (Move.changes tid ti { ti with nextDiscovery := now + kDiscoveryInterval } hti id id).moves
        split
        · exact hchanges
        · rename_i hquiet
          have hnone : ¬ c.topicRequestPending tid .lookupOk = true := by
            intro hpending
            have hsame : (c.setTopic tid { ti with
                nextDiscovery := now + kDiscoveryInterval }).topicRequestPending tid .lookupOk =
                true := hpending
            exact hquiet (by rw [hsame, Bool.or_true])
          refine hchanges.tail (Move.asks
            (message .lookup c.nextTxn (Lookup.encode { id := tid, max := kLookupDefault }) 0)
            { expect := .lookupOk, discoverFor := some tid, loopOwned := true,
              deadline := clock + kControlTimeout } ?_)
          exact
            { fits := length_message (plain_lookup _) _ _ _
              names := fun htxn => names_message (plain_lookup _) (by decide) htxn 0
              worded := fun htxn => worded_of_not_about (about_message (plain_lookup _) (by decide)
                (by decide) (by decide) (by decide) htxn 0)
              shaped := ⟨fun _ => rfl, fun h => (by cases h), fun _ => rfl, fun _ => rfl,
                fun _ h => (by cases h), fun _ _ => rfl⟩
              fresh := rfl
              registers := fun _ h => (by cases h)
              alone := by
                intro f hf
                cases hf
                exact alone_of_not_pending hshaped (fun r hr h => hr.discover tid h)
                  (fun r h => .inr (Request.discoverFor_of_flight h)) hnone }

/-- `RelayAlloc` is a request of the loop; any number of them may be under way. -/
theorem requestRelay_moves (c : ControlLoop) (tid : TopicId) (dev : DevId) (epoch : Option Nat)
    (clock : Instant) : Moves c (c.requestRelay tid dev epoch clock) := by
  unfold requestRelay
  cases (c.topics.lookup tid).bind (·.self) with
  | none => exact .refl
  | some self =>
      dsimp only
      split
      · exact .refl
      · cases epoch with
        | none =>
            have hasks := @Asks.plain
              { expect := .relayAllocOk, relayFor := some (tid, dev), loopOwned := true,
                deadline := clock + kControlTimeout } _
              (plain_relayAlloc { fromDev := self, peerDev := dev, kind := .tcp }) c
              .relayAlloc (by decide) 0
              ⟨fun _ => rfl, fun h => (by cases h), fun h => (by cases h), fun h => (by cases h),
                fun _ h => (by cases h), fun _ h => (by cases h)⟩ rfl rfl rfl
            exact (Move.asks _ _ hasks).moves
        | some epoch =>
            have hasks := @Asks.plain
              { expect := .relayAllocOk, dgramRelayFor := some (tid, dev), dgramEpoch := epoch,
                loopOwned := true, deadline := clock + kControlTimeout } _
              (plain_relayAlloc { fromDev := self, peerDev := dev, kind := .udp }) c
              .relayAlloc (by decide) 0
              ⟨fun _ => rfl, fun h => (by cases h), fun h => (by cases h), fun h => (by cases h),
                fun _ h => (by cases h), fun _ h => (by cases h)⟩ rfl rfl rfl
            exact (Move.asks _ _ hasks).moves

/-! ## Calls

What the application's calls are made of. -/

/-- The caller's half of `publish` up to its wait: the topic's own data and one
request that the loop does not own. -/
theorem publish_moves (c : ControlLoop) (tid : TopicId) («meta» : Bytes) (unlisted : Bool)
    (clock : Instant) : Moves c (c.publish tid «meta» unlisted clock) := by
  unfold publish
  cases hti : c.topics.lookup tid with
  | none => exact .refl
  | some ti =>
      dsimp only
      have hchanges : Moves c (c.setTopic tid { ti with «meta» := «meta», unlisted := unlisted }) :=
        (Move.changes tid ti { ti with «meta» := «meta», unlisted := unlisted } hti id id).moves
      refine hchanges.tail (Move.asks _ { expect := .registerOk, registerFor := some tid } ?_)
      exact Asks.register (c.setTopic tid { ti with «meta» := «meta», unlisted := unlisted }) rfl
        rfl rfl rfl rfl rfl

/-- A call of `publish` ends with its request: the topic is published before the
request goes. -/
theorem finishPublish_moves {req : Request} (hr : c.requests.lookup txn = some req)
    (hcalls : req.loopOwned = false) (hfor : req.registerFor = some tid) (finished : Bool)
    (clock : Instant) : Moves c (c.finishPublish txn tid req finished clock) := by
  have hends : Moves c { c with
      requests :=
        if (!finished && !req.done) = true then
          c.requests.insert txn { req with loopOwned := true, deadline := clock + kControlTimeout }
        else c.requests.erase txn } := by
    split
    · rename_i hgives
      have hwaits : req.done = false := by simpa using (Bool.and_eq_true_iff.mp hgives).2
      exact (Move.adopts txn req (clock + kControlTimeout) hr hcalls hwaits).moves
    · exact (Move.drops txn req hr hcalls).moves
  unfold finishPublish
  by_cases hdone : (finished && decide (req.error = ErrorCode.none.code)) = true
  · rw [if_pos hdone]
    cases registered req.reply with
    | none => exact hends
    | some ok =>
        dsimp only
        cases hti : c.topics.lookup tid with
        | none => exact hends
        | some ti =>
            obtain ⟨hfin, herror⟩ := Bool.and_eq_true_iff.mp hdone
            have hpublishes := Move.publishes (c := c) tid
              { ti with
                self := some ok.devId
                published := true
                reregistering := false
                nextKeepalive := clock + c.keepalive }
              rfl ⟨txn, req, hr, hfor, of_decide_eq_true herror⟩
            rw [hfin]
            exact (hpublishes.moves.tail (Move.notes c.nextCtlKeepalive (some ok.srflx)
              c.ctlReader c.leaving)).tail (Move.drops txn req hr hcalls)
  · rw [if_neg hdone]
    exact hends

/-- The caller wakes, takes its stored reply or gives up, and erases its request
either way. -/
theorem wake_moves (c : ControlLoop) (txn : Nat) (expired : Bool) (clock : Instant) :
    Moves c (c.wake txn expired clock) := by
  unfold wake
  cases hr : c.requests.lookup txn with
  | none => exact .refl
  | some req =>
      dsimp only
      cases hfor : req.registerFor with
      | none => exact .refl
      | some tid =>
          dsimp only
          split
          · exact .refl
          · rename_i hwoken
            have hcalls : req.loopOwned = false := by
              by_contra howned
              exact hwoken (by simp [howned])
            exact finishPublish_moves hr hcalls hfor _ clock

/-- `Unregister` is sent under a transaction with no request behind it: nobody
waits for the answer. -/
theorem unregisterSelf_moves (c : ControlLoop) (ti : Topic) : Moves c (c.unregisterSelf ti) := by
  unfold unregisterSelf
  cases ti.self with
  | none => exact .refl
  | some dev =>
      dsimp only
      split
      · exact (Move.tells _ (length_message (plain_devRef { devId := dev }) _ _ _)
          fun _ => worded_bytes (.unregister c.nextTxn dev)).moves
      · exact .refl

@[simp] theorem unregisterSelf_topics (c : ControlLoop) (ti : Topic) :
    (c.unregisterSelf ti).topics = c.topics := by
  unfold unregisterSelf
  cases ti.self with
  | none => rfl
  | some dev =>
      dsimp only
      split <;> rfl

theorem unpublish_moves (c : ControlLoop) (tid : TopicId) : Moves c (c.unpublish tid) := by
  unfold unpublish
  cases hti : c.topics.lookup tid with
  | none => exact .refl
  | some ti =>
      refine (unregisterSelf_moves c ti).tail (Move.changes tid ti _ ?_
        (fun h => absurd h Bool.false_ne_true) id)
      rw [unregisterSelf_topics]
      exact hti

/-! ## Every step

The decomposition itself. -/

/-- A connecting socket polled: still connecting, failed (the connection goes
down), or up. -/
theorem driveConnecting_moves (c : ControlLoop) (now clock : Instant) (sock : SockState) :
    Moves c (c.driveConnecting now clock sock) := by
  unfold driveConnecting
  split
  · exact .refl
  · rename_i hstate
    have hconnecting : c.ctlState = .connecting := not_not.mp hstate
    have hdowns : Moves c (c.onControlDown now) :=
      (Move.downs now (by rw [hconnecting]; exact Ctl.noConfusion)).moves
    cases sock with
    | failed => exact hdowns
    | connecting =>
        dsimp only
        split
        · exact hdowns
        · exact .refl
    | connected => exact connected_moves hconnecting now clock

theorem driveDown_moves (c : ControlLoop) (now : Instant) (opened : Bool) :
    Moves c (c.driveDown now opened) := by
  unfold driveDown
  split
  · exact .refl
  · rename_i hdue
    have hstate : c.ctlState = .down := by
      by_contra hstate
      exact hdue (by simp [hstate])
    have hlate : c.nextReconnect ≤ now := by
      by_contra hlate
      exact hdue (by simp [lt_of_not_ge hlate])
    split
    · exact (Move.dials now hstate hlate).moves
    · exact (Move.fails now hstate hlate).moves

/-- The connection, once up, may fall. -/
theorem onControlDown_moves (hup : c.ctlState = .up) (now : Instant) :
    Moves c (c.onControlDown now) :=
  (Move.downs now (by rw [hup]; exact Ctl.noConfusion)).moves

/-- What is read goes to the reader; a read that fails, and a reader that
breaks, end the connection. -/
theorem recv_moves (c : ControlLoop) (now : Instant) (got : Option Bytes) :
    Moves c (c.recv now got) := by
  unfold recv
  split
  · exact .refl
  · rename_i hstate
    have hup : c.ctlState = .up := not_not.mp hstate
    cases got with
    | none => exact onControlDown_moves hup now
    | some bytes =>
        dsimp only
        split
        · exact .refl
        · split
          · exact (Move.notes c.nextCtlKeepalive c.srflx
              (c.ctlReader.feed (bytes.take kControlChunk)).2 c.leaving).moves
          · exact onControlDown_moves hup now

theorem takeMessage_moves (hshaped : c.Shaped) (now clock : Instant) :
    Moves c (c.takeMessage now clock) := by
  unfold takeMessage
  split
  · exact .refl
  · have hnotes : Moves c { c with ctlReader := c.ctlReader.next.2 } :=
      (Move.notes c.nextCtlKeepalive c.srflx c.ctlReader.next.2 c.leaving).moves
    dsimp only
    cases c.ctlReader.next.1 with
    | none => exact hnotes
    | some msg =>
        exact hnotes.trans (onControlMessage_moves
          (c := { c with ctlReader := c.ctlReader.next.2 }) hshaped msg now clock)

theorem checkDeadlines_moves (c : ControlLoop) (now : Instant) :
    Moves c (c.checkDeadlines now) := by
  unfold checkDeadlines
  split
  · rename_i hover
    exact onControlDown_moves (by simpa using (Bool.and_eq_true_iff.mp hover).1) now
  · exact .refl

theorem send_moves (c : ControlLoop) (now : Instant) (sent : Option Nat) :
    Moves c (c.send now sent) := by
  unfold send
  split
  · exact .refl
  · rename_i hready
    have hup : c.ctlState = .up := by
      by_contra hstate
      exact hready (by simp [hstate])
    cases sent with
    | none => exact onControlDown_moves hup now
    | some n => exact (Move.sends n hup).moves

theorem connKeepalive_moves (c : ControlLoop) (now : Instant) :
    Moves c (c.connKeepalive now) := by
  unfold connKeepalive
  split
  · exact .refl
  · split
    · exact (Move.notes (now + c.keepalive) c.srflx c.ctlReader c.leaving).moves
    · exact sendConnKeepalive_moves c now

theorem join_moves (c : ControlLoop) (tid : TopicId) (keyed : Bool) :
    Moves c (c.join tid keyed) := by
  unfold join
  cases c.topics.lookup tid with
  | none => exact (Move.joins tid { keyed := keyed } rfl rfl).moves
  | some ti => exact .refl

theorem setAutoConnect_moves (c : ControlLoop) (tid : TopicId) (on : Bool) :
    Moves c (c.setAutoConnect tid on) := by
  unfold setAutoConnect modifyAt
  cases hti : c.topics.lookup tid with
  | none => exact .refl
  | some ti => exact (Move.changes tid ti { ti with autoConnect := on } hti id id).moves

/-- A request with no mark on it, and so with nothing to be said of its marks. -/
theorem shaped_unmarked (expect : MsgType) (deadline : Instant) :
    ({ expect := expect, deadline := deadline } : Request).Shaped :=
  ⟨fun h => (by cases h), fun h => (by cases h), fun h => (by cases h), fun h => (by cases h),
    fun _ h => (by cases h), fun _ h => (by cases h)⟩

/-- A caller takes back its own request, answered or not. -/
theorem takeBack_moves (c : ControlLoop) (txn : Nat) : Moves c (c.takeBack txn) := by
  unfold takeBack
  cases hr : c.requests.lookup txn with
  | none => exact .refl
  | some req =>
      dsimp only
      split
      · exact .refl
      · rename_i hmine
        have hcalls : req.loopOwned = false := by
          by_contra howned
          exact hmine (by simp [howned])
        exact (Move.drops txn req hr hcalls).moves

theorem leave_moves (c : ControlLoop) (tid : TopicId) : Moves c (c.leave tid) := by
  unfold leave
  cases c.topics.lookup tid with
  | none => exact .refl
  | some ti =>
      dsimp only
      split
      · exact .refl
      · exact (Move.leaves tid ti).moves

theorem leaveRest_moves (c : ControlLoop) (i : Nat) : Moves c (c.leaveRest i) := by
  unfold leaveRest
  cases c.leaving[i]? with
  | none => exact .refl
  | some ti =>
      exact (Move.notes c.nextCtlKeepalive c.srflx c.ctlReader
        (c.leaving.eraseIdx i)).moves.trans (unregisterSelf_moves _ ti)

/-- A step is a few moves. -/
theorem step_moves (hshaped : c.Shaped) (op : Op) : Moves c (c.step op) := by
  cases op with
  | driveDown now opened => exact driveDown_moves c now opened
  | driveConnecting now clock sock => exact driveConnecting_moves c now clock sock
  | recv now got => exact recv_moves c now got
  | takeMessage now clock => exact takeMessage_moves hshaped now clock
  | checkDeadlines now => exact checkDeadlines_moves c now
  | send now sent => exact send_moves c now sent
  | connKeepalive now => exact connKeepalive_moves c now
  | topicKeepalive tid now clock => exact topicKeepalive_moves hshaped tid now clock
  | discover tid full now clock => exact discover_moves hshaped tid full now clock
  | requestRelay tid dev epoch clock => exact requestRelay_moves c tid dev epoch clock
  | notify q =>
      exact (Move.tells _ (length_message (plain_question q) _ _ _)
        fun htxn => worded_of_not_about (about_question q htxn 0)).moves
  | join tid keyed => exact join_moves c tid keyed
  | setAutoConnect tid on => exact setAutoConnect_moves c tid on
  | publish tid «meta» unlisted clock => exact publish_moves c tid «meta» unlisted clock
  | wake txn expired clock => exact wake_moves c txn expired clock
  | ask q expect clock =>
      have hasks := Asks.plain (plain_question q) c q.asked q.flags
        (shaped_unmarked expect 0) rfl rfl rfl
      exact (Move.asks _ _ hasks).moves
  | askEmpty type expect hasked =>
      refine (Move.asks (emptyMessage type c.nextTxn) { expect := expect } ?_).moves
      exact ⟨length_emptyMessage _ _, names_emptyMessage hasked.1,
        fun htxn => worded_of_not_about
          (about_emptyMessage hasked.1 hasked.2.1 hasked.2.2.2 htxn),
        shaped_unmarked expect _, rfl, fun _ h => (by cases h), fun _ h => (by cases h)⟩
  | takeBack txn => exact takeBack_moves c txn
  | unpublish tid => exact unpublish_moves c tid
  | leave tid => exact leave_moves c tid
  | leaveRest i => exact leaveRest_moves c i

end UConnect.Node.ControlLoop
