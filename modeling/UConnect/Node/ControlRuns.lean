/-
  Node/ControlRuns.lean --- what holds of the control connection over whole
  runs.

  The connection drops and comes back any number of times, and between two
  messages anything the node can do may happen.  Shown here, each move by move:

  - what the server reads are the messages that were queued, whole and in order, from the
    first on, wherever a connection broke off (`whole_messages`);
  - a request that waits has its message among those of the present connection, and at most
    one connection keepalive, one keepalive and one lookup of a topic wait (`requests_in_flight`);
  - while the connection is up, every published topic has a REGISTER on it
    (`published_register`);
  - the delay before an attempt to reconnect doubles with each failure in a row, up to its
    limit, and is kept (`reconnects_back_off`);
  - a connection on which a request of the loop is not answered ends (`unanswered_ends`).
-/
import UConnect.Foundation.Serial
import UConnect.Node.ControlMoves

set_option autoImplicit false

namespace UConnect.Node.ControlLoop

open UConnect.Foundation UConnect.Server UConnect.Wire

variable {c c' : ControlLoop} {txn : Nat} {r : Request} {m : Bytes} {tid : TopicId} {ti : Topic}

/-! ## Going down

What is left of requests and topics when a connection ends. -/

/-- A caller's request whose connection went down. -/
def Request.failed (r : Request) : Request :=
  { r with done := true, error := ErrorCode.notFound.code }

/-- Going over a request that stands under another transaction leaves this one
alone. -/
theorem lookup_abandon_ne {requests : AList (fun _ : Nat => Request)} {e : Σ _ : Nat, Request}
    (h : txn ≠ e.1) : (abandon requests e).lookup txn = requests.lookup txn := by
  unfold abandon
  split
  · exact AList.lookup_erase_ne h
  · exact AList.lookup_insert_ne h

theorem lookup_foldl_abandon_ne {es : List (Σ _ : Nat, Request)} (h : txn ∉ es.keys)
    (requests : AList (fun _ : Nat => Request)) :
    (es.foldl abandon requests).lookup txn = requests.lookup txn := by
  induction es generalizing requests with
  | nil => rfl
  | cons e es ih =>
      rw [List.keys_cons, List.mem_cons, not_or] at h
      rw [List.foldl_cons, ih h.2, lookup_abandon_ne h.1]

/-- The loop forgets its own requests, and the callers' have failed. -/
theorem lookup_foldl_abandon {es : List (Σ _ : Nat, Request)} (hnodup : es.NodupKeys)
    (hmem : ⟨txn, r⟩ ∈ es) (requests : AList (fun _ : Nat => Request)) :
    (es.foldl abandon requests).lookup txn = if r.loopOwned then none else some r.failed := by
  induction es generalizing requests with
  | nil => cases hmem
  | cons e es ih =>
      rw [List.nodupKeys_cons] at hnodup
      rw [List.foldl_cons]
      rcases List.mem_cons.mp hmem with rfl | hmem
      · rw [lookup_foldl_abandon_ne hnodup.1]
        unfold abandon
        split
        · exact AList.lookup_erase _ _
        · exact AList.lookup_insert _
      · exact ih hnodup.2 hmem _

/-- What `on_control_down` leaves under a transaction: nothing if the loop owned
the request, and else the same request, done and failed, for its caller to find. -/
theorem lookup_down (c : ControlLoop) (now : Instant) (txn : Nat) :
    (c.onControlDown now).requests.lookup txn =
      (c.requests.lookup txn).bind fun r => if r.loopOwned then none else some r.failed := by
  show (c.requests.entries.foldl abandon c.requests).lookup txn = _
  cases hr : c.requests.lookup txn with
  | none =>
      rw [lookup_foldl_abandon_ne (AList.lookup_eq_none.mp hr), hr]
      rfl
  | some r => exact lookup_foldl_abandon c.requests.nodupKeys (AList.mem_lookup_iff.mp hr) _

/-- Read backwards: a request that outlived the connection belonged to a caller,
and is now failed. -/
theorem lookup_down_eq {now : Instant} (h : (c.onControlDown now).requests.lookup txn = some r) :
    ∃ r₀, c.requests.lookup txn = some r₀ ∧ r₀.loopOwned = false ∧ r = r₀.failed := by
  rw [lookup_down] at h
  obtain ⟨r₀, hr₀, hr⟩ := Option.bind_eq_some_iff.mp h
  split at hr
  · cases hr
  · rename_i hcalls
    exact ⟨r₀, hr₀, by simpa using hcalls, (Option.some.inj hr).symm⟩

theorem abandonTopic_of_ne {topics : AList (fun _ : TopicId => Topic)} {r : Request}
    (h : r.registerFor ≠ some tid) :
    (abandonTopic topics r).lookup tid = topics.lookup tid := by
  unfold abandonTopic
  cases hfor : r.registerFor with
  | none => rfl
  | some tid' =>
      dsimp only
      split
      · rw [clearReregistering, lookup_modifyAt, if_neg]
        rintro rfl
        exact h hfor
      · rfl

/-- A topic that registers after a request has gone registered before, for
another. -/
theorem abandonTopic_reregistering {topics : AList (fun _ : TopicId => Topic)} {r : Request}
    (hti : (abandonTopic topics r).lookup tid = some ti) (hrereg : ti.reregistering = true) :
    topics.lookup tid = some ti ∧ ¬ (r.registerFor = some tid ∧ r.loopOwned = true) := by
  by_cases hfor : r.registerFor = some tid
  · unfold abandonTopic at hti
    rw [hfor] at hti
    dsimp only at hti
    split at hti
    · rw [clearReregistering_cleared topics tid ti hti] at hrereg
      cases hrereg
    · rename_i hcalls
      exact ⟨hti, fun h => hcalls h.2⟩
  · rw [abandonTopic_of_ne hfor] at hti
    exact ⟨hti, fun h => hfor h.1⟩

/-- A topic still marked after the walk over the requests was marked before it,
and none of the loop's requests gone over was registering it. -/
theorem foldl_abandonTopic_reregistering {rs : List Request}
    {topics : AList (fun _ : TopicId => Topic)}
    (hti : (rs.foldl abandonTopic topics).lookup tid = some ti) (hrereg : ti.reregistering = true) :
    topics.lookup tid = some ti ∧ ∀ r ∈ rs, ¬ (r.registerFor = some tid ∧ r.loopOwned = true) := by
  induction rs generalizing topics with
  | nil => exact ⟨hti, fun r hr => absurd hr List.not_mem_nil⟩
  | cons r rs ih =>
      obtain ⟨hmid, hrest⟩ := ih hti
      obtain ⟨hfirst, hr⟩ := abandonTopic_reregistering hmid hrereg
      refine ⟨hfirst, fun r' hr' => ?_⟩
      rcases List.mem_cons.mp hr' with rfl | hr'
      · exact hr
      · exact hrest r' hr'

/-- A topic that still registers when the connection is down did so without a
request. -/
theorem down_reregistering {now : Instant} (hti : (c.onControlDown now).topics.lookup tid = some ti)
    (hrereg : ti.reregistering = true) :
    c.topics.lookup tid = some ti ∧
      ∀ txn r, c.requests.lookup txn = some r → r.registerFor = some tid → r.loopOwned = false := by
  obtain ⟨hbefore, hnone⟩ := foldl_abandonTopic_reregistering hti hrereg
  refine ⟨hbefore, fun txn r hr hfor => ?_⟩
  have hmem : r ∈ c.requests.entries.map Sigma.snd :=
    List.mem_map.mpr ⟨⟨txn, r⟩, AList.mem_lookup_iff.mp hr, rfl⟩
  cases howned : r.loopOwned with
  | false => rfl
  | true => exact absurd ⟨hfor, howned⟩ (hnone r hmem)

/-! ## The rule for runs

What every move keeps, every run keeps. -/

theorem Request.Shaped.failed (h : r.Shaped) (hcalls : r.loopOwned = false) : r.failed.Shaped where
  owned howned := by
    have hsame : r.loopOwned = true := howned
    rw [hcalls] at hsame
    cases hsame
  registers := h.registers
  flies := h.flies
  conn := h.conn
  keepalive := h.keepalive
  discover := h.discover

theorem Move.shaped (h : Move c c') (hs : c.Shaped) : c'.Shaped := by
  have hinsert : ∀ {txn : Nat} {r : Request}, r.Shaped → ∀ txn' r',
      (c.requests.insert txn r).lookup txn' = some r' → r'.Shaped := by
    intro txn r hr txn' r' hlookup
    rw [lookup_insert_ite] at hlookup
    split at hlookup
    · cases hlookup
      exact hr
    · exact hs txn' r' hlookup
  have herase : ∀ txn txn' r', (c.requests.erase txn).lookup txn' = some r' → r'.Shaped := by
    intro txn txn' r' hlookup
    rw [lookup_erase_ite] at hlookup
    split at hlookup
    · cases hlookup
    · exact hs txn' r' hlookup
  cases h with
  | notes | hears | tells | changes | joins | publishes | leaves | sends | fails | dials | ups =>
      exact hs
  | asks m r hasks => exact hinsert hasks.shaped
  | registers tid ti hti m r hasks hfor howned => exact hinsert hasks.shaped
  | settles m txn r hr howned hnames hreg => exact herase txn
  | drops txn r hr hcalls => exact herase txn
  | answers m txn r error reply hr hcalls herror =>
      refine hinsert ?_
      have hold := hs txn r hr
      exact ⟨fun howned => absurd (hcalls.symm.trans howned) Bool.false_ne_true, hold.registers,
        hold.flies, hold.conn, hold.keepalive, hold.discover⟩
  | adopts txn r deadline hr hcalls hwaits =>
      refine hinsert ?_
      have hold := hs txn r hr
      exact ⟨fun _ => hwaits, hold.registers, fun _ => rfl, hold.conn, hold.keepalive, hold.discover⟩
  | downs now hstate =>
      intro txn r hr
      obtain ⟨r₀, hr₀, hcalls, rfl⟩ := lookup_down_eq hr
      exact (hs txn r₀ hr₀).failed hcalls

/-- What every move keeps, every number of moves keeps. -/
theorem Moves.keeps {I : ControlLoop → Prop}
    (hmove : ∀ {c c' : ControlLoop}, c.Shaped → Move c c' → I c → I c') (h : Moves c c')
    (hs : c.Shaped) (hi : I c) : c'.Shaped ∧ I c' := by
  induction h with
  | refl => exact ⟨hs, hi⟩
  | tail _ hlast ih => exact ⟨hlast.shaped ih.1, hmove ih.1 hlast ih.2⟩

/-- What every move keeps, every run keeps. -/
theorem run_keeps {I : ControlLoop → Prop}
    (hmove : ∀ {c c' : ControlLoop}, c.Shaped → Move c c' → I c → I c') (hs : c.Shaped) (hi : I c)
    (ops : List Op) : (run step c ops).Shaped ∧ I (run step c ops) :=
  run_invariant (I := fun c => c.Shaped ∧ I c)
    (fun _ op h => (step_moves h.1 op).keeps hmove h.1 h.2) ⟨hs, hi⟩ ops

/-- A node that has sent nothing waits for nothing. -/
theorem shaped_start (keepalive : Duration) (hostCands : List Candidate) (firstTxn : UInt32) :
    (start keepalive hostCands firstTxn).Shaped := by
  intro txn r hr
  cases hr

/-! ## Whole messages

The bytes written on a connection are a front of the frames queued on it. -/

/-- What was queued is what was written and what still waits, frame behind
frame. -/
structure Whole (c : ControlLoop) : Prop where
  fits : ∀ m ∈ c.queued, m.length ≤ kMaxFrame
  split : stream c.queued = c.written ++ c.ctlOut
  quiet : c.ctlState ≠ .up → c.written = []

/-- A frame appended behind the output keeps it whole; the length bound is the
one the reader at the far end tests. -/
theorem Whole.queue (h : c.Whole) (hm : m.length ≤ kMaxFrame) : (c.queue m).Whole where
  fits x hx := by
    rcases List.mem_append.mp hx with hx | hx
    · exact h.fits x hx
    · cases List.mem_singleton.mp hx
      exact hm
  split := by
    show stream (c.queued ++ [m]) = c.written ++ (c.ctlOut ++ frame m)
    rw [stream_append, h.split, frame_eq hm, List.append_assoc, stream_cons, stream_nil,
      List.append_nil]
  quiet := h.quiet

theorem Move.whole (hmove : Move c c') (h : c.Whole) : c'.Whole := by
  cases hmove with
  | notes | hears | settles | answers | adopts | drops | changes | joins | publishes | leaves
  | fails => exact ⟨h.fits, h.split, h.quiet⟩
  | asks m r hasks =>
      have hq := h.queue hasks.fits
      exact ⟨hq.fits, hq.split, hq.quiet⟩
  | registers tid ti hti m r hasks hfor howned =>
      have hq := h.queue hasks.fits
      exact ⟨hq.fits, hq.split, hq.quiet⟩
  | tells m hm hworded =>
      have hq := h.queue hm
      exact ⟨hq.fits, hq.split, hq.quiet⟩
  | sends n hup =>
      refine ⟨h.fits, ?_, fun hstate => absurd hup hstate⟩
      show stream c.queued = c.written ++ c.ctlOut.take n ++ c.ctlOut.drop n
      rw [List.append_assoc, List.take_append_drop]
      exact h.split
  | downs now hstate => exact ⟨fun x hx => absurd hx List.not_mem_nil, rfl, fun _ => rfl⟩
  | dials now hstate hdue =>
      exact ⟨h.fits, h.split, fun _ => h.quiet (by rw [hstate]; exact Ctl.noConfusion)⟩
  | ups hstate hall => exact ⟨h.fits, h.split, fun hdown => absurd rfl hdown⟩

/-- Whole frames only, in every state of every run, by the step lemma and
induction. -/
theorem whole_run (keepalive : Duration) (hostCands : List Candidate) (firstTxn : UInt32)
    (ops : List Op) :
    (run step (start keepalive hostCands firstTxn) ops).Whole :=
  (run_keeps (fun _ hmove h => hmove.whole h) (shaped_start keepalive hostCands firstTxn)
    ⟨fun _ hm => absurd hm List.not_mem_nil, rfl, fun _ => rfl⟩ ops).2

/-- The messages queued fit into frames. -/
theorem Whole.carried (h : c.Whole) : Carried kMaxFrame c.queued :=
  fun m hm => ⟨h.fits m hm, Nat.lt_of_le_of_lt (h.fits m hm) (by decide)⟩

/-- What has been written is the front of the stream of the messages queued. -/
theorem Whole.written_prefix (h : c.Whole) : c.written <+: stream c.queued :=
  ⟨c.ctlOut, h.split.symm⟩

/-- What has been written of a connection is a front of the frames of the
messages queued for it, and what the server reads are these messages, whole and
in order: its reader never breaks, however the bytes arrive, and it has them all
when everything is written. -/
theorem whole_messages (keepalive : Duration) (hostCands : List Candidate) (firstTxn : UInt32)
    (ops : List Op) :
    let c := run step (start keepalive hostCands firstTxn) ops
    c.written <+: stream c.queued ∧
      ∀ calls, FrameReader.fed calls <+: c.written →
        (run FrameReader.step {} calls).broken = false ∧
          FrameReader.returned {} calls <+: c.queued ∧
          (c.ctlOut = [] → FrameReader.fed calls = c.written →
            (run FrameReader.step {} calls).next.1 = none →
            FrameReader.returned {} calls = c.queued) := by
  intro c
  have hwhole : c.Whole := whole_run keepalive hostCands firstTxn ops
  refine ⟨hwhole.written_prefix, fun calls hfed => ?_⟩
  have hcarried := hwhole.carried
  have hprefix : FrameReader.fed calls <+: stream c.queued := hfed.trans hwhole.written_prefix
  obtain ⟨hreturned, hgood⟩ := FrameReader.returned_prefix hcarried hprefix
  refine ⟨hgood, hreturned, fun hout hall hdone => ?_⟩
  have hstream : FrameReader.fed calls = stream c.queued ++ [] := by
    rw [List.append_nil, hwhole.split, hout, List.append_nil, hall]
  have hframes : FrameReader.returned {} calls = (frames kMaxFrame (FrameReader.fed calls)).1 :=
    FrameReader.returned_of_drained hdone
  rw [hstream, frames_stream hcarried] at hframes
  simpa using hframes

/-! ## Requests in flight

What waits is in flight on this connection, and nothing that would be doubled is
sent twice. -/

/-- What is known of the requests that wait: the message of each was queued on
this connection, and no two of them are made for one thing. -/
structure InFlight (c : ControlLoop) : Prop where
  next : c.nextTxn < 2 ^ 32
  pending : ∀ txn r, c.requests.lookup txn = some r → r.done = false → ∃ m ∈ c.queued, Names txn m
  alone : ∀ txn txn' r r' f, c.requests.lookup txn = some r → c.requests.lookup txn' = some r' →
    r.done = false → r'.done = false → r.flight = some f → r'.flight = some f → txn = txn'

/-- Nothing new waits, and nothing queued is taken back. -/
theorem InFlight.mono (h : c.InFlight) (hnext : c'.nextTxn < 2 ^ 32)
    (hqueued : ∀ m ∈ c.queued, m ∈ c'.queued)
    (hold : ∀ txn r', c'.requests.lookup txn = some r' → r'.done = false →
      ∃ r, c.requests.lookup txn = some r ∧ r.done = false ∧ r.flight = r'.flight) :
    c'.InFlight where
  next := hnext
  pending txn r' hr' hwaits := by
    obtain ⟨r, hr, hdone, -⟩ := hold txn r' hr' hwaits
    obtain ⟨m, hm, hnames⟩ := h.pending txn r hr hdone
    exact ⟨m, hqueued m hm, hnames⟩
  alone txn txn' r r' f hr hr' hwaits hwaits' hf hf' := by
    obtain ⟨s, hs, hdone, hflight⟩ := hold txn r hr hwaits
    obtain ⟨s', hs', hdone', hflight'⟩ := hold txn' r' hr' hwaits'
    exact h.alone txn txn' s s' f hs hs' hdone hdone' (hflight.trans hf) (hflight'.trans hf')

/-- The next transaction always fits the field that carries it: `alloc_txn`
wraps at 2^32. -/
theorem next_allocTxn (c : ControlLoop) : c.allocTxn.nextTxn < 2 ^ 32 := Nat.mod_lt _ (by decide)

/-- A new request has its message queued, and is made only where no other is
under way for the same thing. -/
theorem InFlight.asking (h : c.InFlight) (hasks : c.Asks m r) : (c.asking m r).InFlight where
  next := next_allocTxn c
  pending txn r' hr' hwaits := by
    have hlookup : (c.requests.insert c.nextTxn r).lookup txn = some r' := hr'
    rw [lookup_insert_ite] at hlookup
    split at hlookup
    · rename_i hnew
      exact ⟨m, List.mem_append_right _ (List.mem_singleton.mpr rfl), hnew ▸ hasks.names h.next⟩
    · obtain ⟨x, hx, hnames⟩ := h.pending txn r' hlookup hwaits
      exact ⟨x, List.mem_append_left _ hx, hnames⟩
  alone txn txn' s s' f hs hs' hwaits hwaits' hf hf' := by
    have hlookup : (c.requests.insert c.nextTxn r).lookup txn = some s := hs
    have hlookup' : (c.requests.insert c.nextTxn r).lookup txn' = some s' := hs'
    rw [lookup_insert_ite] at hlookup hlookup'
    split at hlookup <;> split at hlookup'
    · rename_i hnew hnew'
      rw [hnew, hnew']
    · cases hlookup
      exact absurd hf' (hasks.alone f hf txn' s' hlookup' hwaits')
    · cases hlookup'
      exact absurd hf (hasks.alone f hf' txn s hlookup hwaits)
    · exact h.alone txn txn' s s' f hlookup hlookup' hwaits hwaits' hf hf'

/-- What one move preserves, a case for each kind of move. -/
theorem Move.inFlight (hmove : Move c c') (h : c.InFlight) : c'.InFlight := by
  have herase : ∀ {txn txn' : Nat} {r' : Request},
      (c.requests.erase txn).lookup txn' = some r' → c.requests.lookup txn' = some r' := by
    intro txn txn' r' hlookup
    rw [lookup_erase_ite] at hlookup
    split at hlookup
    · cases hlookup
    · exact hlookup
  cases hmove with
  | notes | hears | changes | joins | publishes | leaves | sends | fails | dials | ups =>
      exact ⟨h.next, h.pending, h.alone⟩
  | tells m hm hworded =>
      exact h.mono (next_allocTxn c) (fun x hx => List.mem_append_left _ hx)
        fun txn r hr hwaits => ⟨r, hr, hwaits, rfl⟩
  | asks m r hasks => exact h.asking hasks
  | registers tid ti hti m r hasks hfor howned =>
      have hall := h.asking hasks
      exact ⟨hall.next, hall.pending, hall.alone⟩
  | settles m txn r hr howned hnames hreg =>
      exact h.mono h.next (fun x hx => hx) fun txn r hr hwaits => ⟨r, herase hr, hwaits, rfl⟩
  | drops txn r hr hcalls =>
      exact h.mono h.next (fun x hx => hx) fun txn r hr hwaits => ⟨r, herase hr, hwaits, rfl⟩
  | answers m txn r error reply hr hcalls herror =>
      refine h.mono h.next (fun x hx => hx) fun txn' r' hr' hwaits => ?_
      have hlookup : (c.requests.insert txn
        { r with done := true, error := error, reply := reply }).lookup txn' = some r' := hr'
      rw [lookup_insert_ite] at hlookup
      split at hlookup
      · cases hlookup
        cases hwaits
      · exact ⟨r', hlookup, hwaits, rfl⟩
  | adopts txn r deadline hr hcalls hwaits =>
      refine h.mono h.next (fun x hx => hx) fun txn' r' hr' hdone => ?_
      have hlookup : (c.requests.insert txn
        { r with loopOwned := true, deadline := deadline }).lookup txn' = some r' := hr'
      rw [lookup_insert_ite] at hlookup
      split at hlookup
      · rename_i hsame
        cases hlookup
        exact ⟨r, hsame ▸ hr, hwaits, rfl⟩
      · exact ⟨r', hlookup, hdone, rfl⟩
  | downs now hstate =>
      -- nothing waits on a connection that is down
      have hnone : ∀ txn r, (c.onControlDown now).requests.lookup txn = some r →
          r.done ≠ false := by
        intro txn r hr
        obtain ⟨r₀, -, -, rfl⟩ := lookup_down_eq hr
        exact Bool.noConfusion
      exact ⟨h.next, fun txn r hr hwaits => absurd hwaits (hnone txn r hr),
        fun txn txn' r r' f hr _ hwaits => absurd hwaits (hnone txn r hr)⟩

/-- A request that waits for its reply has its message, with its transaction in
the header, among those of the present connection, one of the loop always waits,
and no two wait for the connection's keepalive, for the keepalive of one topic
or for the lookup of one. -/
theorem requests_in_flight (keepalive : Duration) (hostCands : List Candidate) (firstTxn : UInt32)
    (ops : List Op) :
    let c := run step (start keepalive hostCands firstTxn) ops
    (∀ txn r, c.requests.lookup txn = some r →
      (r.loopOwned = true → r.done = false) ∧
      (r.done = false → ∃ m ∈ c.queued, Names txn m)) ∧
    ∀ txn txn' r r' f, c.requests.lookup txn = some r → c.requests.lookup txn' = some r' →
      r.done = false → r'.done = false → r.flight = some f → r'.flight = some f → txn = txn' := by
  intro c
  obtain ⟨hshaped, hflight⟩ := run_keeps (I := InFlight) (fun _ hmove h => hmove.inFlight h)
    (shaped_start keepalive hostCands firstTxn)
    { next := firstTxn.toNat_lt
      pending := fun txn r hr => by cases hr
      alone := fun txn txn' r r' f hr => by cases hr } ops
  exact ⟨fun txn r hr => ⟨(hshaped txn r hr).owned, hflight.pending txn r hr⟩, hflight.alone⟩

/-! ## Reconnecting

The delay as a function of the failures in a row. -/

/-- The delay after `n` failures: the first one doubled `n` times, up to the
most it may be. -/
def delay (n : Nat) : Duration := min (kReconnectMin * 2 ^ n) kReconnectMax

theorem delay_zero : delay 0 = kReconnectMin := by decide

/-- Doubling commutes with the limit. -/
theorem min_double (d : Int) {limit : Int} (h : 0 ≤ limit) :
    min (min d limit * 2) limit = min (d * 2) limit := by
  omega

/-- The n-th delay doubled and capped is the next one, so the delays of a run of
failures are known in closed form. -/
theorem nextBackoff_delay (n : Nat) : nextBackoff (delay n) = delay (n + 1) := by
  have hmax : (0 : Int) ≤ kReconnectMax := by decide
  unfold nextBackoff delay
  rw [pow_succ, ← mul_assoc]
  exact min_double _ hmax

/-- The delays are kept: the next attempt is as far behind the last failure as
the failures so far call for. -/
structure Paced (c : ControlLoop) : Prop where
  backoff : c.reconnectBackoff = delay c.failures
  next : c.ctlState ≠ .up →
    c.nextReconnect = if c.failures = 0 then 0 else c.lastDown + delay (c.failures - 1)
  begun : c.ctlState = .connecting → c.nextReconnect + kControlTimeout ≤ c.ctlConnectDeadline

theorem Move.paced (hmove : Move c c') (h : c.Paced) : c'.Paced := by
  cases hmove with
  | notes | hears | asks | tells | registers | settles | answers | adopts | drops | changes | joins
  | publishes | leaves | sends => exact ⟨h.backoff, h.next, h.begun⟩
  | downs now hstate =>
      refine ⟨?_, fun _ => ?_, fun hstate => by cases hstate⟩
      · show nextBackoff c.reconnectBackoff = delay (c.failures + 1)
        rw [h.backoff, nextBackoff_delay]
      · show now + c.reconnectBackoff = _
        rw [h.backoff]
        rfl
  | fails now hstate hdue =>
      refine ⟨?_, fun _ => ?_, fun hconnecting => absurd (hstate.symm.trans hconnecting)
        Ctl.noConfusion⟩
      · show nextBackoff c.reconnectBackoff = delay (c.failures + 1)
        rw [h.backoff, nextBackoff_delay]
      · show now + c.reconnectBackoff = _
        rw [h.backoff]
        rfl
  | dials now hstate hdue =>
      refine ⟨h.backoff, fun _ => h.next (by rw [hstate]; exact Ctl.noConfusion), fun _ => ?_⟩
      exact Int.add_le_add_right hdue kControlTimeout
  | ups hstate hall =>
      exact ⟨delay_zero.symm, fun hdown => absurd rfl hdown, fun hconnecting => by cases hconnecting⟩

/-- After `n` failures in a row the next attempt waits `delay (n - 1)` from the
last of them, which doubles from `kReconnectMin` up to `kReconnectMax`; one that
is under way was begun no earlier. -/
theorem reconnects_back_off (keepalive : Duration) (hostCands : List Candidate) (firstTxn : UInt32)
    (ops : List Op) :
    let c := run step (start keepalive hostCands firstTxn) ops
    c.reconnectBackoff = min (kReconnectMin * 2 ^ c.failures) kReconnectMax ∧
    (c.ctlState ≠ .up → c.nextReconnect =
      if c.failures = 0 then 0
      else c.lastDown + min (kReconnectMin * 2 ^ (c.failures - 1)) kReconnectMax) ∧
    (c.ctlState = .connecting → c.nextReconnect ≤ c.ctlConnectDeadline - kControlTimeout) := by
  intro c
  have hpaced : c.Paced := (run_keeps (I := Paced) (fun _ hmove h => hmove.paced h)
    (shaped_start keepalive hostCands firstTxn)
    ⟨delay_zero.symm, fun _ => rfl, fun hstate => by cases hstate⟩ ops).2
  exact ⟨hpaced.backoff, hpaced.next, fun hstate => Int.le_sub_right_of_add_le (hpaced.begun hstate)⟩

/-! ## Transactions

Numbers in use are numbers given out, told apart as long as fewer than 2^32
were. -/

/-- Transactions are counted, and the table holds none that was not given out. -/
structure Numbered (c : ControlLoop) : Prop where
  next : c.nextTxn < 2 ^ 32
  given : ∀ txn r, c.requests.lookup txn = some r → Drawn (2 ^ 32) c.nextTxn c.asked txn

/-- The next transaction is not in the table while they have not come round. -/
theorem Numbered.fresh (h : c.Numbered) (hasked : c.asked < 2 ^ 32) :
    c.requests.lookup c.nextTxn = none := by
  cases hr : c.requests.lookup c.nextTxn with
  | none => rfl
  | some r => exact absurd rfl ((h.given _ r hr).ne_next hasked)

/-- A step that allots no transaction and adds no request keeps the bound on
those in use. -/
theorem Numbered.mono (h : c.Numbered) (hnext : c'.nextTxn = c.nextTxn) (hasked : c'.asked = c.asked)
    (hold : ∀ txn r', c'.requests.lookup txn = some r' → ∃ r, c.requests.lookup txn = some r) :
    c'.Numbered where
  next := hnext ▸ h.next
  given txn r' hr' := by
    obtain ⟨r, hr⟩ := hold txn r' hr'
    rw [hnext, hasked]
    exact h.given txn r hr

/-- One more transaction allotted: those in use lie still further back, modulo
2^32. -/
theorem Numbered.allocTxn (h : c.Numbered) : c.allocTxn.Numbered where
  next := next_allocTxn c
  given txn r hr := (h.given txn r hr).earlier

theorem Numbered.asking (h : c.Numbered) (m : Bytes) (r : Request) : (c.asking m r).Numbered where
  next := next_allocTxn c
  given txn r' hr' := by
    have hlookup : (c.requests.insert c.nextTxn r).lookup txn = some r' := hr'
    rw [lookup_insert_ite] at hlookup
    split at hlookup
    · rename_i hnew
      rw [hnew]
      exact .last h.next c.asked
    · exact h.allocTxn.given txn r' hlookup

/-- Every move keeps the transactions in use among those allotted. -/
theorem Move.numbered (hmove : Move c c') (h : c.Numbered) : c'.Numbered := by
  have herase : ∀ txn txn' r', (c.requests.erase txn).lookup txn' = some r' →
      ∃ r, c.requests.lookup txn' = some r := by
    intro txn txn' r' hlookup
    rw [lookup_erase_ite] at hlookup
    split at hlookup
    · cases hlookup
    · exact ⟨r', hlookup⟩
  have hinsert : ∀ {txn : Nat} {r : Request} (s : Request), c.requests.lookup txn = some r →
      ∀ txn' r', (c.requests.insert txn s).lookup txn' = some r' →
        ∃ r, c.requests.lookup txn' = some r := by
    intro txn r s hr txn' r' hlookup
    rw [lookup_insert_ite] at hlookup
    split at hlookup
    · rename_i hsame
      exact ⟨r, hsame ▸ hr⟩
    · exact ⟨r', hlookup⟩
  cases hmove with
  | notes | hears | changes | joins | publishes | leaves | sends | fails | dials | ups =>
      exact ⟨h.next, h.given⟩
  | tells m hm hworded => exact ⟨h.allocTxn.next, h.allocTxn.given⟩
  | asks m r hasks => exact h.asking m r
  | registers tid ti hti m r hasks hfor howned =>
      have hall := h.asking m r
      exact ⟨hall.next, hall.given⟩
  | settles m txn r hr howned hnames hreg => exact h.mono rfl rfl (herase txn)
  | drops txn r hr hcalls => exact h.mono rfl rfl (herase txn)
  | answers m txn r error reply hr hcalls herror => exact h.mono rfl rfl (hinsert _ hr)
  | adopts txn r deadline hr hcalls hwaits => exact h.mono rfl rfl (hinsert _ hr)
  | downs now hstate =>
      refine h.mono rfl rfl fun txn r hr => ?_
      obtain ⟨r₀, hr₀, -⟩ := lookup_down_eq hr
      exact ⟨r₀, hr₀⟩

/-- Counts and what was heard only grow. -/
theorem Move.grows (hmove : Move c c') : c.asked ≤ c'.asked ∧ c.heard <+: c'.heard := by
  cases hmove with
  | notes | changes | joins | publishes | leaves | sends | fails | dials | ups | drops | adopts
  | downs => exact ⟨Nat.le_refl _, List.prefix_rfl⟩
  | hears | settles | answers => exact ⟨Nat.le_refl _, List.prefix_append _ _⟩
  | asks | tells | registers => exact ⟨Nat.le_succ _, List.prefix_rfl⟩

/-- At the start none is in use, whatever the first transaction drawn. -/
theorem numbered_start (keepalive : Duration) (hostCands : List Candidate) (firstTxn : UInt32) :
    (start keepalive hostCands firstTxn).Numbered where
  next := firstTxn.toNat_lt
  given txn r hr := by cases hr

/-! ## Published topics

A published topic has announced itself on this connection, or is about to. -/

/-- A REGISTER of the topic was queued for the present connection. -/
def Announces (c : ControlLoop) (tid : TopicId) : Prop := ∃ m ∈ c.queued, IsRegister tid m

/-- How the REGISTERs are accounted for. -/
structure Announced (c : ControlLoop) : Prop where
  /-- The flag is set while a request of the loop waits. -/
  flag : ∀ tid ti, c.topics.lookup tid = some ti → ti.reregistering = true →
    ∃ txn r, c.requests.lookup txn = some r ∧ r.registerFor = some tid ∧ r.loopOwned = true
  asked : ∀ txn r tid, c.requests.lookup txn = some r → r.registerFor = some tid →
    r.done = false ∨ r.error = ErrorCode.none.code → c.Announces tid
  up : c.ctlState = .up → ∀ tid ti, c.topics.lookup tid = some ti → ti.published = true →
    c.Announces tid

/-- A topic whose `REGISTER` is queued stays so when more is queued behind it. -/
theorem Announces.queue (h : c.Announces tid) (m : Bytes) : (c.queue m).Announces tid := by
  obtain ⟨x, hx, hreg⟩ := h
  exact ⟨x, List.mem_append_left _ hx, hreg⟩

/-- One topic changes: it registers only if a request says so, and is published
only if it has been announced. -/
theorem Announced.setTopic (h : c.Announced)
    (hflag : ti.reregistering = true → ∃ txn r, c.requests.lookup txn = some r ∧
      r.registerFor = some tid ∧ r.loopOwned = true)
    (hup : c.ctlState = .up → ti.published = true → c.Announces tid) :
    (c.setTopic tid ti).Announced := by
  have hcases : ∀ {tid' : TopicId} {ti' : Topic}, (c.setTopic tid ti).topics.lookup tid' = some ti' →
      (tid' = tid ∧ ti' = ti) ∨ c.topics.lookup tid' = some ti' := by
    intro tid' ti' hlookup
    have hinsert : (c.topics.insert tid ti).lookup tid' = some ti' := hlookup
    rw [lookup_insert_ite] at hinsert
    split at hinsert
    · rename_i hsame
      exact .inl ⟨hsame, (Option.some.inj hinsert).symm⟩
    · exact .inr hinsert
  refine ⟨fun tid' ti' hti hrereg => ?_, h.asked, fun hstate tid' ti' hti hpub => ?_⟩
  · rcases hcases hti with ⟨rfl, rfl⟩ | hold
    · exact hflag hrereg
    · exact h.flag tid' ti' hold hrereg
  · rcases hcases hti with ⟨rfl, rfl⟩ | hold
    · exact hup hstate hpub
    · exact h.up hstate tid' ti' hold hpub

/-- A request goes that no topic waits for. -/
theorem Announced.erase (h : c.Announced) {txn : Nat} {r : Request}
    (hr : c.requests.lookup txn = some r)
    (hidle : ∀ tid, r.registerFor = some tid → r.loopOwned = true →
      ∀ ti, c.topics.lookup tid = some ti → ti.reregistering = false) :
    { c with requests := c.requests.erase txn }.Announced := by
  refine ⟨fun tid ti hti hrereg => ?_, fun txn' r' tid hr' => ?_, h.up⟩
  · obtain ⟨txn', r', hr', hfor, howned⟩ := h.flag tid ti hti hrereg
    have hne : txn' ≠ txn := by
      rintro rfl
      cases hr.symm.trans hr'
      rw [hidle tid hfor howned ti hti] at hrereg
      cases hrereg
    exact ⟨txn', r', (AList.lookup_erase_ne hne).trans hr', hfor, howned⟩
  · have hlookup : (c.requests.erase txn).lookup txn' = some r' := hr'
    rw [lookup_erase_ite] at hlookup
    split at hlookup
    · cases hlookup
    · exact h.asked txn' r' tid hlookup

/-- A caller's request changes: it still stands for the same topic, and is not
better off. -/
theorem Announced.replace (h : c.Announced) {txn : Nat} {r r' : Request}
    (hr : c.requests.lookup txn = some r) (hcalls : r.loopOwned = false)
    (hfor : r'.registerFor = r.registerFor)
    (hworse : r'.done = false ∨ r'.error = ErrorCode.none.code →
      r.done = false ∨ r.error = ErrorCode.none.code) :
    { c with requests := c.requests.insert txn r' }.Announced := by
  refine ⟨fun tid ti hti hrereg => ?_, fun txn' s tid hs hsfor hgood => ?_, h.up⟩
  · obtain ⟨txn', s, hs, hsfor, howned⟩ := h.flag tid ti hti hrereg
    have hne : txn' ≠ txn := by
      rintro rfl
      cases hr.symm.trans hs
      exact Bool.false_ne_true (hcalls.symm.trans howned)
    exact ⟨txn', s, (AList.lookup_insert_ne hne).trans hs, hsfor, howned⟩
  · have hlookup : (c.requests.insert txn r').lookup txn' = some s := hs
    rw [lookup_insert_ite] at hlookup
    split at hlookup
    · cases hlookup
      exact h.asked txn r tid hr (hfor.symm.trans hsfor) (hworse hgood)
    · exact h.asked txn' s tid hlookup hsfor hgood

/-- A request under a transaction that nobody holds does not take the place of
one that a topic's mark stands for.  This is where the bound on the transactions
is needed. -/
theorem Announced.asking (h : c.Announced) (hasks : c.Asks m r)
    (hfresh : c.requests.lookup c.nextTxn = none) : (c.asking m r).Announced := by
  have hqueue : ∀ {tid : TopicId}, c.Announces tid → (c.asking m r).Announces tid := by
    rintro tid ⟨x, hx, hreg⟩
    exact ⟨x, List.mem_append_left _ hx, hreg⟩
  refine ⟨fun tid ti hti hrereg => ?_, fun txn s tid hs hfor hgood => ?_,
    fun hstate tid ti hti hpub => hqueue (h.up hstate tid ti hti hpub)⟩
  · obtain ⟨txn, s, hs, hfor, howned⟩ := h.flag tid ti hti hrereg
    have hne : txn ≠ c.nextTxn := by
      rintro rfl
      cases hfresh.symm.trans hs
    exact ⟨txn, s, (AList.lookup_insert_ne hne).trans hs, hfor, howned⟩
  · have hlookup : (c.requests.insert c.nextTxn r).lookup txn = some s := hs
    rw [lookup_insert_ite] at hlookup
    split at hlookup
    · cases hlookup
      exact ⟨m, List.mem_append_right _ (List.mem_singleton.mpr rfl), hasks.registers tid hfor⟩
    · exact hqueue (h.asked txn s tid hlookup hfor hgood)

/-- With the connection its promises go: what was queued is dropped, and no
topic is owed anything until the next one is up. -/
theorem Announced.down (h : c.Announced) (now : Instant) : (c.onControlDown now).Announced := by
  refine ⟨fun tid ti hti hrereg => ?_, fun txn r tid hr hfor hgood => ?_, fun hstate => ?_⟩
  · obtain ⟨hbefore, hnone⟩ := down_reregistering hti hrereg
    obtain ⟨txn, r, hr, hfor, howned⟩ := h.flag tid ti hbefore hrereg
    exact absurd ((hnone txn r hr hfor).symm.trans howned) Bool.false_ne_true
  · obtain ⟨r₀, -, -, rfl⟩ := lookup_down_eq hr
    rcases hgood with hwaits | herror
    · cases hwaits
    · have hsame : ErrorCode.notFound.code = ErrorCode.none.code := herror
      exact absurd hsame (by decide)
  · cases hstate

/-- The connection comes up with every published topic registering. -/
theorem Announced.rising (h : c.Announced) (hs : c.Shaped)
    (hall : ∀ tid ti, c.topics.lookup tid = some ti → ti.published = true →
      ti.reregistering = true) : c.rising.Announced := by
  refine ⟨h.flag, h.asked, fun _ tid ti hti hpub => ?_⟩
  obtain ⟨txn, r, hr, hfor, howned⟩ := h.flag tid ti hti (hall tid ti hti hpub)
  exact h.asked txn r tid hr hfor (.inl ((hs txn r hr).owned howned))

/-- One move keeps every published topic announced on this connection, as long
as the server's replies are not faulty and no transaction has been allotted
twice. -/
theorem Move.announced (hmove : Move c c') (hs : c.Shaped) (hnum : c.Numbered)
    (hasked : c'.asked ≤ 2 ^ 32) (hgood : ∀ m ∈ c'.heard, faulty m = false) (h : c.Announced) :
    c'.Announced := by
  have hsame : ∀ {d : ControlLoop}, d.Announced → ∀ m, (d.hearing m).Announced :=
    fun hd _ => ⟨hd.flag, hd.asked, hd.up⟩
  cases hmove with
  | notes | hears | sends | fails => exact ⟨h.flag, h.asked, h.up⟩
  | asks m r hasks => exact h.asking hasks (hnum.fresh (Nat.lt_of_succ_le hasked))
  | tells m hm hworded =>
      exact ⟨h.flag, fun txn r tid hr hfor hok => (h.asked txn r tid hr hfor hok).queue m,
        fun hstate tid ti hti hpub => (h.up hstate tid ti hti hpub).queue m⟩
  | registers tid ti hti m r hasks hfor howned =>
      have hasking := h.asking hasks (hnum.fresh (Nat.lt_of_succ_le hasked))
      refine hasking.setTopic (fun _ => ⟨c.nextTxn, r, AList.lookup_insert _, hfor, howned⟩)
        fun hstate hpub => hasking.up hstate tid ti hti hpub
  | settles m txn r hr howned hnames hreg =>
      refine hsame (h.erase hr fun tid hfor _ => (hreg tid hfor).resolve_right ?_) m
      rw [hgood m (List.mem_append_right _ (List.mem_singleton.mpr rfl))]
      exact Bool.false_ne_true
  | answers m txn r error reply hr hcalls herror =>
      have hreplaced : { c with
          requests := c.requests.insert txn
            { r with done := true, error := error, reply := reply } }.Announced := by
        refine h.replace hr hcalls rfl fun hok => ?_
        have hnone : error = ErrorCode.none.code := hok.resolve_left Bool.noConfusion
        rcases herror with hkeeps | hne | hfaulty
        · exact .inr (hkeeps.symm.trans hnone)
        · exact absurd hnone hne
        · rw [hgood m (List.mem_append_right _ (List.mem_singleton.mpr rfl))] at hfaulty
          cases hfaulty
      exact hsame hreplaced m
  | adopts txn r deadline hr hcalls hwaits => exact h.replace hr hcalls rfl fun _ => .inl hwaits
  | drops txn r hr hcalls =>
      exact h.erase hr fun tid hfor howned => absurd (hcalls.symm.trans howned)
        Bool.false_ne_true
  | changes tid ti ti' hti hpub hrereg =>
      exact h.setTopic (fun hflag => h.flag tid ti hti (hrereg hflag))
        fun hstate hpub' => h.up hstate tid ti hti (hpub hpub')
  | joins tid ti hpub hrereg =>
      exact h.setTopic (fun hflag => absurd (hrereg.symm.trans hflag) Bool.false_ne_true)
        fun _ hpub' => absurd (hpub.symm.trans hpub') Bool.false_ne_true
  | publishes tid ti hrereg hgranted =>
      obtain ⟨txn, r, hr, hfor, herror⟩ := hgranted
      exact h.setTopic (fun hflag => absurd (hrereg.symm.trans hflag) Bool.false_ne_true)
        fun _ _ => h.asked txn r tid hr hfor (.inr herror)
  | leaves tid ti =>
      have herase : ∀ {tid' : TopicId} {ti' : Topic}, (c.topics.erase tid).lookup tid' = some ti' →
          c.topics.lookup tid' = some ti' := by
        intro tid' ti' hlookup
        rw [lookup_erase_ite] at hlookup
        split at hlookup
        · cases hlookup
        · exact hlookup
      exact ⟨fun tid' ti' hti hrereg => h.flag tid' ti' (herase hti) hrereg, h.asked,
        fun hstate tid' ti' hti hpub => h.up hstate tid' ti' (herase hti) hpub⟩
  | downs now hstate => exact h.down now
  | dials now hstate hdue => exact ⟨h.flag, h.asked, fun hup => by cases hup⟩
  | ups hstate hall => exact h.rising hs hall

/-- Nothing is published at the start. -/
theorem announced_start (keepalive : Duration) (hostCands : List Candidate) (firstTxn : UInt32) :
    (start keepalive hostCands firstTxn).Announced where
  flag tid ti hti := by cases hti
  asked txn r tid hr := by cases hr
  up hstate := by cases hstate

/-- While the connection is up, every published topic has had its REGISTER
queued on it: what the server knew of the topics went with the last one.  This
is as long as transactions do not come round and the server sends no broken
reply. -/
theorem published_register (keepalive : Duration) (hostCands : List Candidate) (firstTxn : UInt32)
    (ops : List Op)
    (hasked : (run step (start keepalive hostCands firstTxn) ops).asked ≤ 2 ^ 32)
    (hgood : ∀ m ∈ (run step (start keepalive hostCands firstTxn) ops).heard, faulty m = false)
    {tid : TopicId} {ti : Topic}
    (hup : (run step (start keepalive hostCands firstTxn) ops).ctlState = .up)
    (hti : (run step (start keepalive hostCands firstTxn) ops).topics.lookup tid = some ti)
    (hpub : ti.published = true) :
    ∃ m ∈ (run step (start keepalive hostCands firstTxn) ops).queued, IsRegister tid m := by
  have hrun := run_keeps
    (I := fun c => c.Numbered ∧ (c.asked ≤ 2 ^ 32 → (∀ m ∈ c.heard, faulty m = false) →
      c.Announced))
    (fun hs hmove h => ⟨hmove.numbered h.1, fun hasked hgood =>
      hmove.announced hs h.1 hasked hgood (h.2 (hmove.grows.1.trans hasked)
        fun m hm => hgood m (hmove.grows.2.subset hm))⟩)
    (shaped_start keepalive hostCands firstTxn)
    ⟨numbered_start keepalive hostCands firstTxn,
      fun _ _ => announced_start keepalive hostCands firstTxn⟩ ops
  exact (hrun.2.2 hasked hgood).up hup tid ti hti hpub

/-- A topic. -/
def sampleId : TopicId := Vector.replicate 16 7

/-- What the server answers to its REGISTER. -/
def sampleReply : Bytes :=
  message .registerOk 1 (RegisterOk.encode
    { devId := Vector.replicate 16 9, srflx := {}, peersInTopic := 1 })

/-- The connection comes up. -/
def sampleUp : List Op :=
  [.join sampleId true, .publish sampleId [1, 2] false 0, .driveDown 0 true,
    .driveConnecting 5 5 .connected]

/-- The topic is published on it. -/
def samplePublished : List Op :=
  [.send 6 (some 1000), .recv 7 (some (frame sampleReply)), .takeMessage 7 7, .wake 1 false 8]

/-- It breaks, and the next one comes up. -/
def sampleAgain : List Op :=
  [.recv 9 none, .driveDown (seconds 1) true, .driveConnecting (seconds 2) (seconds 2) .connected]

/-- The topic registers on the second connection. -/
theorem published_register_again :
    (run step (start (seconds 15) [] 1) (sampleUp ++ samplePublished ++ sampleAgain)).ups = 2 ∧
      ∃ m ∈ (run step (start (seconds 15) [] 1) (sampleUp ++ samplePublished ++ sampleAgain)).queued,
        IsRegister sampleId m := by
  have hany : ((run step (start (seconds 15) [] 1)
      (sampleUp ++ samplePublished ++ sampleAgain)).topics.lookup sampleId).any
        (·.published) = true := by decide
  obtain ⟨ti, hti, hpub⟩ := (Option.any_eq_true _ _).mp hany
  exact ⟨by decide, published_register (seconds 15) [] 1 _ (by decide) (by decide) (by decide)
    hti hpub⟩

/-! ## Requests that are not answered

A request of the loop waits for its reply or for its deadline, and nothing else
takes it away. -/

/-- Where a request of the loop is later: its connection ended, or it still
waits, or a message named it.  `up` counts the connections before it and `n` the
messages. -/
structure Waits (txn : Nat) (r : Request) (up n : Nat) (c : ControlLoop) : Prop where
  heard : n ≤ c.heard.length
  ups : up ≤ c.ups
  waits : c.ups = up → c.ctlState = .up →
    c.requests.lookup txn = some r ∨ ∃ m ∈ c.heard.drop n, Names txn m

section Waits

variable {up n : Nat}

/-- A message has been heard, and the request has gone only if the message named
it. -/
theorem Waits.hearing (h : Waits txn r up n c) (m : Bytes)
    {requests : AList (fun _ : Nat => Request)}
    (hkeep : c.requests.lookup txn = some r → requests.lookup txn = some r ∨ Names txn m) :
    Waits txn r up n { c.hearing m with requests := requests } := by
  have hdrop : (c.heard ++ [m]).drop n = c.heard.drop n ++ [m] :=
    List.drop_append_of_le_length h.heard
  refine ⟨?_, h.ups, fun hups hstate => ?_⟩
  · show n ≤ (c.heard ++ [m]).length
    rw [List.length_append]
    exact Nat.le_trans h.heard (Nat.le_add_right _ _)
  · show requests.lookup txn = some r ∨ ∃ x ∈ (c.heard ++ [m]).drop n, Names txn x
    rw [hdrop]
    rcases h.waits hups hstate with hr | ⟨x, hx, hnames⟩
    · refine (hkeep hr).imp_right fun hnames => ?_
      exact ⟨m, List.mem_append_right _ (List.mem_singleton.mpr rfl), hnames⟩
    · exact .inr ⟨x, List.mem_append_left _ hx, hnames⟩

/-- The table changes, and keeps the request. -/
theorem Waits.requests (h : Waits txn r up n c) {requests : AList (fun _ : Nat => Request)}
    (hkeep : c.requests.lookup txn = some r → requests.lookup txn = some r) :
    Waits txn r up n { c with requests := requests } :=
  ⟨h.heard, h.ups, fun hups hstate => (h.waits hups hstate).imp_left hkeep⟩

/-- A new request takes another transaction. -/
theorem Waits.asking (h : Waits txn r up n c) (hnum : c.Numbered) (hasked : c.asked < 2 ^ 32)
    (m : Bytes) (s : Request) : Waits txn r up n (c.asking m s) := by
  refine ⟨h.heard, h.ups, fun hups hstate => (h.waits hups hstate).imp_left fun hr => ?_⟩
  have hne : txn ≠ c.nextTxn := by
    rintro rfl
    cases (hnum.fresh hasked).symm.trans hr
  exact (AList.lookup_insert_ne hne).trans hr

/-- A request of the loop still waits after a move, unless a message that names
it was heard or its connection fell. -/
theorem Move.waits (hmove : Move c c') (hnum : c.Numbered) (hasked : c'.asked ≤ 2 ^ 32)
    (howned : r.loopOwned = true) (h : Waits txn r up n c) : Waits txn r up n c' := by
  have hother : ∀ {txn' : Nat} {s : Request}, c.requests.lookup txn' = some s →
      s.loopOwned = false → c.requests.lookup txn = some r → txn ≠ txn' := by
    rintro txn' s hs hcalls hr rfl
    cases hr.symm.trans hs
    exact Bool.false_ne_true (hcalls.symm.trans howned)
  cases hmove with
  | notes | tells | changes | joins | publishes | leaves | sends | fails =>
      exact ⟨h.heard, h.ups, h.waits⟩
  | hears m => exact h.hearing m .inl
  | asks m s hasks =>
      have hall := h.asking hnum (Nat.lt_of_succ_le hasked) m s
      exact ⟨hall.heard, hall.ups, hall.waits⟩
  | registers tid ti hti m s hasks hfor hs =>
      have hall := h.asking hnum (Nat.lt_of_succ_le hasked) m s
      exact ⟨hall.heard, hall.ups, hall.waits⟩
  | settles m txn' s hs howned' hnames hreg =>
      refine h.hearing m fun hr => ?_
      by_cases hsame : txn = txn'
      · exact .inr (hsame ▸ hnames)
      · exact .inl ((AList.lookup_erase_ne hsame).trans hr)
  | answers m txn' s error reply hs hcalls herror =>
      exact h.hearing m fun hr => .inl ((AList.lookup_insert_ne (hother hs hcalls hr)).trans hr)
  | adopts txn' s deadline hs hcalls hwaits =>
      exact h.requests fun hr => (AList.lookup_insert_ne (hother hs hcalls hr)).trans hr
  | drops txn' s hs hcalls =>
      exact h.requests fun hr => (AList.lookup_erase_ne (hother hs hcalls hr)).trans hr
  | downs now hstate => exact ⟨h.heard, h.ups, fun _ hup => by cases hup⟩
  | dials now hstate hdue => exact ⟨h.heard, h.ups, fun _ hup => by cases hup⟩
  | ups hstate hall =>
      refine ⟨h.heard, Nat.le_succ_of_le h.ups, fun hups => ?_⟩
      have hsame : c.ups + 1 = up := hups
      have hle := h.ups
      omega

end Waits

/-- The same along any run, from any state that is well shaped and numbered. -/
theorem waits_run (hs : c.Shaped) (hnum : c.Numbered) (hr : c.requests.lookup txn = some r)
    (howned : r.loopOwned = true) (ops : List Op) (hasked : (run step c ops).asked ≤ 2 ^ 32) :
    Waits txn r c.ups c.heard.length (run step c ops) := by
  have hrun := run_keeps
    (I := fun d => d.Numbered ∧ (d.asked ≤ 2 ^ 32 → Waits txn r c.ups c.heard.length d))
    (fun _ hmove h => ⟨hmove.numbered h.1, fun hasked =>
      hmove.waits h.1 hasked howned (h.2 (hmove.grows.1.trans hasked))⟩)
    hs ⟨hnum, fun _ => ⟨Nat.le_refl _, Nat.le_refl _, fun _ _ => .inl hr⟩⟩ ops
  exact hrun.2.2 hasked

/-- A request of the loop that no message names ends its connection: the first
look at the deadlines when it is due takes the connection down, whatever else is
answered. -/
theorem unanswered_ends (keepalive : Duration) (hostCands : List Candidate) (firstTxn : UInt32)
    (before after : List Op)
    {txn : Nat} {r : Request} {now : Instant}
    (hr : (run step (start keepalive hostCands firstTxn) before).requests.lookup txn = some r)
    (howned : r.loopOwned = true)
    (hups : (run step (start keepalive hostCands firstTxn) (before ++ after)).ups =
      (run step (start keepalive hostCands firstTxn) before).ups)
    (hup : (run step (start keepalive hostCands firstTxn) (before ++ after)).ctlState = .up)
    (hasked : (run step (start keepalive hostCands firstTxn) (before ++ after)).asked ≤ 2 ^ 32)
    (hsilent : ∀ m ∈ (run step (start keepalive hostCands firstTxn) (before ++ after)).heard.drop
      (run step (start keepalive hostCands firstTxn) before).heard.length, ¬ Names txn m)
    (hlate : r.deadline ≤ now) :
    (run step (start keepalive hostCands firstTxn)
      (before ++ after ++ [.checkDeadlines now])).ctlState = .down := by
  obtain ⟨hs, hnum⟩ := run_keeps (I := Numbered) (fun _ hmove h => hmove.numbered h)
    (shaped_start keepalive hostCands firstTxn) (numbered_start keepalive hostCands firstTxn) before
  rw [run_append] at hups hup hasked hsilent
  have hwaits := waits_run hs hnum hr howned after hasked
  obtain ⟨hs', -⟩ := run_keeps (I := Numbered) (fun _ hmove h => hmove.numbered h) hs hnum after
  rw [run_append, run_append]
  generalize run step (run step (start keepalive hostCands firstTxn) before) after = d at *
  have hstill : d.requests.lookup txn = some r := by
    refine (hwaits.waits hups hup).resolve_right ?_
    rintro ⟨m, hm, hnames⟩
    exact hsilent m hm hnames
  have hover : d.overdue now = true := by
    refine List.any_eq_true.mpr ⟨⟨txn, r⟩, AList.mem_lookup_iff.mp hstill, ?_⟩
    simp [howned, (hs' txn r hstill).owned howned, hlate]
  show (d.checkDeadlines now).ctlState = .down
  unfold checkDeadlines
  rw [hup, hover]
  rfl

/-- The REGISTER is answered, but not the keepalive of the connection. -/
theorem unanswered_ends_keepalive :
    (run step (start (seconds 15) [] 1) (sampleUp ++ samplePublished)).ctlState = .up ∧
      (run step (start (seconds 15) [] 1)
        (sampleUp ++ samplePublished ++ [.checkDeadlines (seconds 11)])).ctlState = .down := by
  have hr : (run step (start (seconds 15) [] 1) sampleUp).requests.lookup 2 =
      some {
        expect := .keepaliveOk
        connKeepalive := true
        loopOwned := true
        deadline := 5 + kControlTimeout } := by decide
  exact ⟨by decide, unanswered_ends (seconds 15) [] 1 sampleUp samplePublished hr rfl (by decide)
    (by decide) (by decide) (by decide) (by decide)⟩

end UConnect.Node.ControlLoop
