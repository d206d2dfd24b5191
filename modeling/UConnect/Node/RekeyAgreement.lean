/-
  Node/RekeyAgreement.lean --- the two sides of a datagram channel rekey alike.

  The shift of a channel is the smaller of the two nodes' own.  Each side offers
  its own shift and takes the smaller of it and the peer's, from the first offer
  it hears for the channel; later offers, and offers for channels that are gone,
  change nothing.  Between the sides are the records of one TCP session, in
  order, and beside them records of any kind, among which only stale offers.
-/
import UConnect.Node.DgramGate

set_option autoImplicit false

namespace UConnect.Node

open UConnect.Foundation UConnect.Crypto UConnect.Wire

/-! ## The invariant of a side

The schedule of a side's channel is the one its first offer has set. -/

/-- What holds of an entry at all times, where the peer's own shift is
`peerShift`.  `known` are epochs for which the peer's offer was taken: no other
channel ever has one of them. -/
structure Entry.Keeps (P : Primitives) (initiator : Bool) (root : Hash) (cfg : NodeConfig)
    (peerShift : Nat) (known : Nat → Prop) (e : Entry) : Prop where
  rooted : ∀ s ∈ e.peer.sess, TcpSession.Rooted P initiator root s
  high_lt : e.peer.dgramEpoch < 2 ^ 32
  below : ∀ d ∈ e.peer.dgram, d.epoch ≤ e.peer.dgramEpoch
  keyed : ∀ d ∈ e.peer.dgram, Keyed P (ChannelUser.keysOf P initiator root d.epoch)
    (min cfg.rekeyShift peerShift) d
  settled : ∀ n, known n → n ≤ e.peer.dgramEpoch ∧
    ∀ d ∈ e.peer.dgram, d.epoch = n → d.remote.isSome = true

namespace Entry

variable {P : Primitives} {initiator : Bool} {root : Hash} {cfg : NodeConfig} {peerShift : Nat}
  {known : Nat → Prop} {e e' : Entry}

theorem Keeps.gated (h : e.Keeps P initiator root cfg peerShift known) : e.Gated :=
  fun d hd => (h.keyed d hd).gated

theorem rooted_of_calls (h : ∀ s ∈ e.peer.sess, TcpSession.Rooted P initiator root s)
    (hcalls : e.Calls P e') : ∀ s ∈ e'.peer.sess, TcpSession.Rooted P initiator root s := by
  obtain ⟨ops, hops⟩ := hcalls
  intro s hs
  rw [hops, Option.mem_def] at hs
  obtain ⟨t, ht, rfl⟩ := Option.map_eq_some_iff.mp hs
  exact run_invariant (fun _ op hs => hs.step op) (h t ht) ops

theorem Keeps.follows (h : e.Keeps P initiator root cfg peerShift known) (hf : e.Follows P e') :
    e'.Keeps P initiator root cfg peerShift known := by
  have hback : ∀ d' ∈ e'.peer.dgram, ∃ d ∈ e.peer.dgram, d.Follows P d' := by
    intro d' hd'
    have hheld := hf.held
    rw [Option.mem_def.mp hd'] at hheld
    generalize ho : e.peer.dgram = o at hheld
    cases hheld with
    | some hd => exact ⟨_, rfl, hd⟩
  refine ⟨rooted_of_calls h.rooted hf.calls, ?_, ?_, ?_, ?_⟩
  · rw [hf.high]
    exact h.high_lt
  · intro d' hd'
    obtain ⟨d, hd, hdd⟩ := hback d' hd'
    rw [hdd.epoch, hf.high]
    exact h.below d hd
  · intro d' hd'
    obtain ⟨d, hd, hdd⟩ := hback d' hd'
    rw [hdd.epoch]
    exact hdd.keyed (h.keyed d hd)
  · intro n hn
    obtain ⟨hle, hsome⟩ := h.settled n hn
    refine ⟨hf.high ▸ hle, fun d' hd' heq => ?_⟩
    obtain ⟨d, hd, hdd⟩ := hback d' hd'
    rw [hdd.remote]
    exact hsome d hd (hdd.epoch.symm.trans heq)

theorem Keeps.dgramDrop (h : e.Keeps P initiator root cfg peerShift known) :
    e.dgramDrop.Keeps P initiator root cfg peerShift known := by
  have hpeer := dgramDrop_peer e
  refine ⟨?_, ?_, ?_, ?_, ?_⟩
  · rw [hpeer]
    exact h.rooted
  · rw [hpeer]
    exact h.high_lt
  · rw [hpeer]
    exact fun d hd => nomatch hd
  · rw [hpeer]
    exact fun d hd => nomatch hd
  · rw [hpeer]
    exact fun n hn => ⟨(h.settled n hn).1, fun d hd => nomatch hd⟩

/-- A new channel waits, under the keys of its epoch. -/
theorem Keeps.dgramOpen (h : e.Keeps P initiator root cfg peerShift known) {epoch : Nat}
    (hnew : e.peer.dgramEpoch < epoch) (hlt : epoch < 2 ^ 32) (fb : DatagramFallback)
    (now : Instant) :
    (e.dgramOpen P cfg epoch fb now).2.Keeps P initiator root cfg peerShift known := by
  unfold Entry.dgramOpen
  cases hs : e.peer.sess with
  | none => exact h
  | some s =>
      have hroot := h.rooted s hs
      have hstep := hroot.step (.datagramKeys epoch)
      rcases hdk : s.datagramKeys P epoch with ⟨- | keys, s'⟩
      · rw [TcpSession.step, hdk] at hstep
        simp only [hdk]
        refine ⟨?_, h.high_lt, h.below, h.keyed, h.settled⟩
        intro t ht
        cases ht
        exact hstep
      · have hgiven : ¬ s.Refuses epoch := by
          intro href
          rw [TcpSession.datagramKeys_of_refuses href] at hdk
          cases hdk
        obtain ⟨hkeys, hroot'⟩ := hroot.datagramKeys hgiven
        rw [hdk] at hkeys hroot'
        cases hkeys
        have hmax : max e.peer.dgramEpoch epoch = epoch := Nat.max_eq_right (Nat.le_of_lt hnew)
        simp only [hdk, hmax]
        refine ⟨?_, ?_, ?_, ?_, ?_⟩
        · rw [dgramSetPath_peer]
          intro t ht
          cases ht
          exact hroot'
        · rw [dgramSetPath_peer]
          exact hlt
        · rw [dgramSetPath_peer]
          intro d hd
          cases hd
          exact Nat.le_refl _
        · rw [dgramSetPath_peer]
          intro d hd
          cases hd
          refine ⟨sending_create _ _ _ _ _ _ cfg.rekeyShift_range.2,
            receiving_create _ _ _ _ _ _ cfg.rekeyShift_range (epochKeys_connId_lt _ _ _ _),
            fun _ => ?_, fun hset => absurd hset Bool.false_ne_true⟩
          exact ⟨⟨rfl, rfl, rfl⟩, rfl, rfl, rfl, Or.inr rfl, rfl, rfl⟩
        · rw [dgramSetPath_peer]
          intro n hn
          have hle := (h.settled n hn).1
          refine ⟨Nat.le_of_lt (Nat.lt_of_le_of_lt hle hnew), fun d hd heq => ?_⟩
          cases hd
          have heq : epoch = n := heq
          omega

/-- The peer's first offer fixes the shift. -/
theorem Keeps.takeOffer (h : e.Keeps P initiator root cfg peerShift known)
    (cands : List Candidate) :
    (e.takeOffer cfg peerShift cands).Keeps P initiator root cfg peerShift known := by
  unfold Entry.takeOffer
  cases hd : e.peer.dgram with
  | none => exact h
  | some d =>
      have hkeyed := h.keyed d hd
      simp only
      split
      · exact h
      · rename_i hnone
        rw [Bool.not_eq_true, Option.isSome_eq_false_iff, Option.isNone_iff_eq_none] at hnone
        have hw := hkeyed.gated hnone
        have hsend := hkeyed.sending.configureRekeyShift (min cfg.rekeyShift peerShift)
        have hrecv := hkeyed.receiving.configureRekeyShift hw.opened (min cfg.rekeyShift peerShift)
        rcases d.sess.configureRekeyShift_cases (min cfg.rekeyShift peerShift) with
          heq | ⟨-, -, -, -, heq⟩
        · rw [heq]
          exact h
        · rw [heq] at hsend hrecv ⊢
          refine ⟨h.rooted, h.high_lt, ?_, ?_, ?_⟩
          · intro d' hd'
            cases hd'
            exact h.below d hd
          · intro d' hd'
            cases hd'
            exact ⟨hsend, hrecv, nofun, fun _ => rfl⟩
          · intro n hn
            refine ⟨(h.settled n hn).1, fun d' hd' _ => ?_⟩
            cases hd'
            rfl

/-- An offer that is malformed, of an epoch that was used before, or of the
channel held when its offer was already taken. -/
def Stale (e : Entry) (body : Bytes) : Prop :=
  ∀ epoch shift cands, decodeDgramOffer body = some (epoch, shift, cands) →
    epoch ≤ e.peer.dgramEpoch ∧ ∀ d ∈ e.peer.dgram, d.epoch = epoch → d.remote.isSome = true

instance Stale.decidable (e : Entry) (body : Bytes) : Decidable (e.Stale body) :=
  match h : decodeDgramOffer body with
  | none => .isTrue fun _ _ _ hdec => nomatch h.symm.trans hdec
  | some (epoch, _, _) =>
      decidable_of_iff (epoch ≤ e.peer.dgramEpoch ∧
        ∀ d ∈ e.peer.dgram, d.epoch = epoch → d.remote.isSome = true)
        ⟨fun hold _ _ _ hdec => by
          cases Option.some.inj (h.symm.trans hdec)
          exact hold,
          fun hold => hold epoch _ _ h⟩

/-- Such an offer changes nothing, whatever it says. -/
theorem Stale.dgramOnOffer {body : Bytes} (h : e.Stale body) (now : Instant) :
    e.dgramOnOffer P cfg body now = e := by
  unfold Entry.dgramOnOffer
  cases hdec : decodeDgramOffer body with
  | none => rfl
  | some offer =>
      obtain ⟨epoch, shift, cands⟩ := offer
      obtain ⟨hle, hsome⟩ := h epoch shift cands hdec
      cases hd : e.peer.dgram with
      | none => simp only [if_pos hle]
      | some d =>
          simp only
          rcases Nat.lt_trichotomy epoch d.epoch with hlt | heq | hgt
          · rw [if_pos hlt]
          · rw [if_neg (by omega), if_neg (by omega)]
            unfold Entry.takeOffer
            simp only [hd, hsome d hd heq.symm, if_true]
          · rw [if_neg (by omega), if_pos hgt, if_pos hle]

/-- A record that, if it is an offer, names the shift `shift`. -/
def Offers (shift : Nat) (r : Record) : Prop :=
  r.1 = kDgramOffer → ∀ epoch shift' cands,
    decodeDgramOffer r.2 = some (epoch, shift', cands) → shift' = shift

theorem Keeps.dgramOnOffer (h : e.Keeps P initiator root cfg peerShift known) {body : Bytes}
    (hoffer : Offers peerShift (kDgramOffer, body)) (now : Instant) :
    (e.dgramOnOffer P cfg body now).Keeps P initiator root cfg peerShift known := by
  unfold Entry.dgramOnOffer
  cases hdec : decodeDgramOffer body with
  | none => exact h
  | some offer =>
      obtain ⟨epoch, shift, cands⟩ := offer
      have hlt := epoch_lt_of_decodeDgramOffer hdec
      have hshift : shift = peerShift := hoffer rfl epoch shift cands hdec
      subst hshift
      have hopened : ∀ fb, ¬ epoch ≤ e.peer.dgramEpoch →
          (if !(e.dgramOpen P cfg epoch fb now).1 then (e.dgramOpen P cfg epoch fb now).2
            else (e.dgramOpen P cfg epoch fb now).2.takeOffer cfg shift cands).Keeps
              P initiator root cfg shift known := by
        intro fb hnew
        have hopen := h.dgramOpen (Nat.not_le.mp hnew) hlt fb now
        split
        · exact hopen
        · exact hopen.takeOffer cands
      cases hd : e.peer.dgram with
      | none =>
          simp only
          split
          · exact h
          · rename_i hnew
            exact hopened _ hnew
      | some d =>
          simp only
          split
          · exact h
          split
          · split
            · exact h
            · rename_i hnew
              exact hopened _ hnew
          · exact h.takeOffer cands

/-- A record of the peer: its own offer, or a stale one, or anything else. -/
theorem Keeps.onRecord (h : e.Keeps P initiator root cfg peerShift known) {r : Record}
    (hr : Offers peerShift r ∨ (r.1 = kDgramOffer → e.Stale r.2)) (now : Instant) :
    (e.onRecord P cfg r.1 r.2 now).Keeps P initiator root cfg peerShift known := by
  obtain ⟨kind, body⟩ := r
  unfold Entry.onRecord
  split
  · exact h.follows (.of_eq rfl)
  split
  · rename_i hkind
    simp only at hkind hr
    subst hkind
    rcases hr with hr | hr
    · exact h.dgramOnOffer hr now
    · rw [(hr rfl).dgramOnOffer now]
      exact h
  split
  · split
    · exact h.follows (.of_eq rfl)
    · exact h
  split
  · split
    · split
      · exact h.dgramDrop
      · exact h
    · exact h
  · exact h

/-! ### What a side sends -/

theorem offers_driveOffer (h : e.Keeps P initiator root cfg peerShift known) (udp : UdpView)
    (now : Instant) (io : List SendResult) :
    ∀ r ∈ (e.driveOffer P cfg udp now io).1, Offers cfg.rekeyShift r := by
  unfold driveOffer
  split
  · rename_i s d _ hd
    split
    · exact fun r hr => nomatch hr
    split
    · simp only
      split
      · intro r hr
        rw [List.mem_singleton.mp hr]
        intro _ epoch shift cands hdec
        have hlt : d.epoch < 2 ^ 32 := Nat.lt_of_le_of_lt (h.below d hd) h.high_lt
        have hback := decodeDgramOffer_encodeDgramOffer hlt cfg.rekeyShift_range
          (if udp.ready then udp.candidates else [])
        have heq := Option.some.inj (hdec.symm.trans hback)
        exact congrArg (fun t => t.2.1) heq
      · exact fun r hr => nomatch hr
    · exact fun r hr => nomatch hr
  · exact fun r hr => nomatch hr

end Entry

/-! ## Two sides and the records between them

Both sides, each with what the other has written and it has not read. -/

/-- One side: its configuration, its entry for the other, and the channels it
held before, as it left them. -/
structure DgramEnd where
  cfg : NodeConfig
  entry : Entry
  past : List Dgram := []

/-- What happens at a side. -/
inductive DgramTurn where
  | openDatagrams (fb : DatagramFallback) (now : Instant)
  | closeDatagrams (now : Instant) (io : List SendResult)
  | driveDgram (env : DgramEnv) (turn : PunchTurn) (now : Instant) (io : List SendResult)
  | sendDatagram (env : DgramEnv) (payload : Bytes) (now : Instant) (io : List SendResult)
  | sendDatagramsOverTcp
  | onUdp (env : DgramEnv) (src : Endpoint) (dgram : Bytes) (now : Instant)
  /-- A relay for the channel: the server's answer, or the peer's offer of one. -/
  | relayAllocOk (epoch id : Nat) (token : Bytes) (now : Instant)
  | relayAllocRefused (epoch : Nat)
  | relayOffer (id : Nat) (token : Bytes) (now : Instant)
  /-- The next record of the peer. -/
  | receive (now : Instant)
  /-- A record that is none of those the peer's functions send. -/
  | record (kind : UInt8) (body : Bytes) (now : Instant)
  /-- The session ends, or the application disconnects the peer. -/
  | dgramDrop
  /-- Any other call of the TCP session. -/
  | tcp (op : TcpSession.Op)

namespace DgramEnd

variable (P : Primitives)

/-- The entry after a turn, with the records the TCP session accepted and what
left on UDP. -/
def act (x : DgramEnd) (inbox : List Record) : DgramTurn → List Record × List DgramSend × Entry
  | .openDatagrams fb now => ([], [], (x.entry.openDatagrams P x.cfg fb now).2)
  | .closeDatagrams now io =>
      let (records, _, e) := x.entry.closeDatagrams P now io
      (records, [], e)
  | .driveDgram env turn now io =>
      let (records, sends, _, e) := x.entry.driveDgram P x.cfg env turn now io
      (records, sends, e)
  | .sendDatagram env payload now io =>
      let (_, records, sends, _, e) := x.entry.sendDatagram P env payload now io
      (records, sends, e)
  | .sendDatagramsOverTcp => ([], [], x.entry.sendDatagramsOverTcp.2)
  | .onUdp env src dgram now => ([], [], x.entry.onUdp P env src dgram now)
  | .relayAllocOk epoch id token now => ([], [], x.entry.relayAllocOk epoch id token now)
  | .relayAllocRefused epoch => ([], [], x.entry.relayAllocRefused epoch)
  | .relayOffer id token now => ([], [], x.entry.dgramRelayGranted id token now)
  | .receive now =>
      match inbox with
      | [] => ([], [], x.entry)
      | (kind, body) :: _ => ([], [], x.entry.onRecord P x.cfg kind body now)
  | .record kind body now => ([], [], x.entry.onRecord P x.cfg kind body now)
  | .dgramDrop => ([], [], x.entry.dgramDrop)
  | .tcp op =>
      ([], [], { x.entry with
        peer := { x.entry.peer with sess := x.entry.peer.sess.map fun s => s.step P op } })

/-- The channel that was held and is not any more. -/
def retired (old new : Option Dgram) : List Dgram :=
  old.toList.filter fun d => !new.any fun d' => d'.epoch = d.epoch

/-- The side after a turn. -/
def step (x : DgramEnd) (inbox : List Record) (op : DgramTurn) : DgramEnd :=
  let e := (x.act P inbox op).2.2
  { x with entry := e, past := x.past ++ retired x.entry.peer.dgram e.peer.dgram }

/-- Every channel the side held or holds. -/
def channels (x : DgramEnd) : List Dgram := x.past ++ x.entry.peer.dgram.toList

end DgramEnd

/-- Two sides and the records on their way. -/
structure DgramPair where
  left : DgramEnd
  right : DgramEnd
  toRight : List Record := []
  toLeft : List Record := []

namespace DgramPair

variable (P : Primitives)

/-- The pair with its sides exchanged. -/
def flip (l : DgramPair) : DgramPair := ⟨l.right, l.left, l.toLeft, l.toRight⟩

/-- A side by name. -/
def side (l : DgramPair) : Which → DgramEnd
  | .left => l.left
  | .right => l.right

/-- The records a side has not read yet. -/
def inbox (l : DgramPair) : Which → List Record
  | .left => l.toLeft
  | .right => l.toRight

/-- What is left of an inbox. -/
def unread (inbox : List Record) : DgramTurn → List Record
  | .receive _ => inbox.tail
  | _ => inbox

/-- The left side's turn. -/
def stepLeft (l : DgramPair) (op : DgramTurn) : DgramPair where
  left := l.left.step P l.toLeft op
  right := l.right
  toRight := l.toRight ++ (l.left.act P l.toLeft op).1
  toLeft := unread l.toLeft op

/-- One step. -/
def step (l : DgramPair) : Which × DgramTurn → DgramPair
  | (.left, op) => l.stepLeft P op
  | (.right, op) => (l.flip.stepLeft P op).flip

/-- Offers that the peer's functions did not send are stale. -/
def OffersStale (l : DgramPair) : Which × DgramTurn → Prop
  | (w, .record kind body _) => kind = kDgramOffer → (l.side w).entry.Stale body
  | _ => True

instance OffersStale.decidable (l : DgramPair) : ∀ op, Decidable (OffersStale l op)
  | (w, .record kind body _) =>
      inferInstanceAs (Decidable (kind = kDgramOffer → (l.side w).entry.Stale body))
  | (_, .openDatagrams _ _) => .isTrue trivial
  | (_, .closeDatagrams _ _) => .isTrue trivial
  | (_, .driveDgram _ _ _ _) => .isTrue trivial
  | (_, .sendDatagram _ _ _ _) => .isTrue trivial
  | (_, .sendDatagramsOverTcp) => .isTrue trivial
  | (_, .onUdp _ _ _ _) => .isTrue trivial
  | (_, .relayAllocOk _ _ _ _) => .isTrue trivial
  | (_, .relayAllocRefused _) => .isTrue trivial
  | (_, .relayOffer _ _ _) => .isTrue trivial
  | (_, .receive _) => .isTrue trivial
  | (_, .dgramDrop) => .isTrue trivial
  | (_, .tcp _) => .isTrue trivial

/-! ## The invariant of the pair

What is unread on one side was written under the epoch of the other. -/

/-- What holds of a side of the pair. -/
structure EndInv (initiator : Bool) (root : Hash) (peerShift : Nat) (known : Nat → Prop)
    (x : DgramEnd) : Prop where
  entry : x.entry.Keeps P initiator root x.cfg peerShift known
  past : ∀ d ∈ x.past, Keyed P (ChannelUser.keysOf P initiator root d.epoch)
    (min x.cfg.rekeyShift peerShift) d

variable {P} {initiator : Bool} {root : Hash} {peerShift : Nat} {known : Nat → Prop}

/-- Every turn keeps the invariant of an entry. -/
theorem EndInv.act {x : DgramEnd} (h : EndInv P initiator root peerShift known x)
    {inbox : List Record} (hinbox : ∀ r ∈ inbox, Entry.Offers peerShift r) {op : DgramTurn}
    (hop : ∀ kind body now, op = .record kind body now → kind = kDgramOffer →
      x.entry.Stale body) :
    (x.act P inbox op).2.2.Keeps P initiator root x.cfg peerShift known := by
  have he := h.entry
  cases op with
  | openDatagrams fb now =>
      show (x.entry.openDatagrams P x.cfg fb now).2.Keeps P initiator root x.cfg peerShift known
      unfold Entry.openDatagrams
      split
      · exact he
      split
      · exact he
      split
      · exact he
      split
      · exact he
      · rename_i hlast
        refine he.dgramOpen (Nat.lt_succ_self _) ?_ fb now
        have hlt := he.high_lt
        omega
  | closeDatagrams now io =>
      show (x.entry.closeDatagrams P now io).2.2.Keeps P initiator root x.cfg peerShift known
      unfold Entry.closeDatagrams
      split
      · exact he
      · exact (he.follows (Entry.follows_sendRecord _ _ _ _ _)).dgramDrop
  | driveDgram env turn now io => exact he.follows (he.gated.driveDgram x.cfg env turn now io)
  | sendDatagram env payload now io =>
      exact he.follows (he.gated.sendDatagram env payload now io)
  | sendDatagramsOverTcp => exact he.follows (Entry.follows_sendDatagramsOverTcp _)
  | onUdp env src dgram now => exact he.follows (he.gated.onUdp env src dgram now)
  | relayAllocOk epoch id token now =>
      exact he.follows (Entry.follows_relayAllocOk _ epoch id token now)
  | relayAllocRefused epoch => exact he.follows (he.gated.relayAllocRefused epoch)
  | relayOffer id token now => exact he.follows (Entry.follows_dgramRelayGranted _ id token now)
  | receive now =>
      unfold DgramEnd.act
      cases inbox with
      | nil => exact he
      | cons r rest =>
          exact he.onRecord (Or.inl (hinbox r List.mem_cons_self)) now
  | record kind body now =>
      exact he.onRecord (r := (kind, body)) (Or.inr (hop kind body now rfl)) now
  | dgramDrop => exact he.dgramDrop
  | tcp op =>
      refine ⟨?_, he.high_lt, he.below, he.keyed, he.settled⟩
      exact Entry.rooted_of_calls he.rooted ⟨[op], rfl⟩

theorem EndInv.step {x : DgramEnd} (h : EndInv P initiator root peerShift known x)
    {inbox : List Record} (hinbox : ∀ r ∈ inbox, Entry.Offers peerShift r) {op : DgramTurn}
    (hop : ∀ kind body now, op = .record kind body now → kind = kDgramOffer →
      x.entry.Stale body) :
    EndInv P initiator root peerShift known (x.step P inbox op) := by
  refine ⟨h.act hinbox hop, fun d hd => ?_⟩
  rcases List.mem_append.mp hd with hd | hd
  · exact h.past d hd
  · -- what is left behind is as it was before the turn
    exact h.entry.keyed d (Option.mem_toList.mp (List.mem_of_mem_filter hd))

/-- A side offers its own shift. -/
theorem EndInv.offers {x : DgramEnd} (h : EndInv P initiator root peerShift known x)
    (inbox : List Record) (op : DgramTurn) :
    ∀ r ∈ (x.act P inbox op).1, Entry.Offers x.cfg.rekeyShift r := by
  have hother : ∀ (kind : UInt8) (body : Bytes) (sent : Bool), kind ≠ kDgramOffer →
      ∀ r ∈ (if sent then [(kind, body)] else []), Entry.Offers x.cfg.rekeyShift r := by
    intro kind body sent hkind r hr
    cases sent with
    | false => cases hr
    | true =>
        rw [List.mem_singleton.mp hr]
        exact fun h => absurd h hkind
  have hnone : ∀ r ∈ ([] : List Record), Entry.Offers x.cfg.rekeyShift r :=
    fun r hr => absurd hr List.not_mem_nil
  cases op with
  | closeDatagrams now io =>
      show ∀ r ∈ (x.entry.closeDatagrams P now io).1, _
      unfold Entry.closeDatagrams
      split
      · exact hnone
      · exact hother _ _ _ (by decide)
  | driveDgram env turn now io =>
      show ∀ r ∈ (x.entry.driveDgram P x.cfg env turn now io).1, _
      unfold Entry.driveDgram
      split
      · exact Entry.offers_driveOffer h.entry env.udp now io
      · exact hnone
  | sendDatagram env payload now io =>
      show ∀ r ∈ (x.entry.sendDatagram P env payload now io).2.1, _
      unfold Entry.sendDatagram
      split
      · exact hnone
      split
      · exact hnone
      split
      · split
        · exact hother _ _ _ (by decide)
        · split
          · exact hnone
          · exact hnone
      split
      · exact hother _ _ _ (by decide)
      · exact hnone
  | receive now =>
      unfold DgramEnd.act
      cases inbox with
      | nil => exact hnone
      | cons r rest => exact hnone
  | openDatagrams fb now => exact hnone
  | sendDatagramsOverTcp => exact hnone
  | onUdp env src dgram now => exact hnone
  | relayAllocOk epoch id token now => exact hnone
  | relayAllocRefused epoch => exact hnone
  | relayOffer id token now => exact hnone
  | record kind body now => exact hnone
  | dgramDrop => exact hnone
  | tcp op => exact hnone

/-- The invariant of the pair.  The sides are told apart by their roles and
roots, and `known` is kept of the side that asks. -/
structure Inv (P : Primitives) (role : Which → Bool) (root : Which → Hash) (cfg : Which → NodeConfig)
    (known : Which → Nat → Prop) (l : DgramPair) : Prop where
  leftCfg : l.left.cfg = cfg .left
  rightCfg : l.right.cfg = cfg .right
  left : EndInv P (role .left) (root .left) (cfg .right).rekeyShift (known .left) l.left
  right : EndInv P (role .right) (root .right) (cfg .left).rekeyShift (known .right) l.right
  toLeft : ∀ r ∈ l.toLeft, Entry.Offers (cfg .right).rekeyShift r
  toRight : ∀ r ∈ l.toRight, Entry.Offers (cfg .left).rekeyShift r

/-- The other side. -/
def other : Which → Which
  | .left => .right
  | .right => .left

section Runs

variable {role : Which → Bool} {roots : Which → Hash} {cfg : Which → NodeConfig}
  {knows : Which → Nat → Prop} {l : DgramPair}

theorem Inv.flip (h : Inv P role roots cfg knows l) :
    Inv P (role ∘ other) (roots ∘ other) (cfg ∘ other) (knows ∘ other) l.flip :=
  ⟨h.rightCfg, h.leftCfg, h.right, h.left, h.toRight, h.toLeft⟩

theorem mem_of_mem_unread {inbox : List Record} {op : DgramTurn} {r : Record}
    (h : r ∈ unread inbox op) : r ∈ inbox := by
  cases op with
  | receive now => exact List.mem_of_mem_tail h
  | _ => exact h

theorem Inv.stepLeft (h : Inv P role roots cfg knows l) {op : DgramTurn}
    (hop : OffersStale l (.left, op)) : Inv P role roots cfg knows (l.stepLeft P op) := by
  have hstale : ∀ kind body now, op = .record kind body now → kind = kDgramOffer →
      l.left.entry.Stale body := by
    intro kind body now heq
    subst heq
    exact hop
  refine ⟨h.leftCfg, h.rightCfg, h.left.step h.toLeft hstale, h.right, ?_, ?_⟩
  · intro r hr
    exact h.toLeft r (mem_of_mem_unread hr)
  · intro r hr
    rcases List.mem_append.mp hr with hr | hr
    · exact h.toRight r hr
    · rw [← h.leftCfg]
      exact h.left.offers l.toLeft op r hr

theorem Inv.step (h : Inv P role roots cfg knows l) {op : Which × DgramTurn}
    (hop : OffersStale l op) : Inv P role roots cfg knows (l.step P op) := by
  obtain ⟨which, op⟩ := op
  cases which with
  | left => exact h.stepLeft hop
  | right =>
      have hop' : OffersStale l.flip (.left, op) := by
        cases op <;> exact hop
      have hflip := (h.flip.stepLeft hop').flip
      exact ⟨hflip.leftCfg, hflip.rightCfg, hflip.left, hflip.right, hflip.toLeft, hflip.toRight⟩

/-- The invariant, read at either side. -/
theorem Inv.side (h : Inv P role roots cfg knows l) (w : Which) :
    (l.side w).cfg = cfg w ∧
      EndInv P (role w) (roots w) (cfg (other w)).rekeyShift (knows w) (l.side w) := by
  cases w with
  | left => exact ⟨h.leftCfg, h.left⟩
  | right => exact ⟨h.rightCfg, h.right⟩

/-- What is known can be exchanged for anything else that is settled. -/
theorem EndInv.settle {x : DgramEnd} (h : EndInv P initiator root peerShift known x)
    {known' : Nat → Prop}
    (hknown : ∀ n, known' n → n ≤ x.entry.peer.dgramEpoch ∧
      ∀ d ∈ x.entry.peer.dgram, d.epoch = n → d.remote.isSome = true) :
    EndInv P initiator root peerShift known' x :=
  ⟨⟨h.entry.rooted, h.entry.high_lt, h.entry.below, h.entry.keyed, hknown⟩, h.past⟩

theorem Inv.run (h : Inv P role roots cfg knows l) (ops : List (Which × DgramTurn))
    (hops : AllSteps OffersStale (DgramPair.step P) l ops) :
    Inv P role roots cfg knows (Foundation.run (DgramPair.step P) l ops) :=
  run_invariant_of_allSteps (fun _ _ hop hl => hl.step hop) h ops hops

/-- A channel that has the peer's offer is the only one of its epoch. -/
theorem Inv.settle (h : Inv P role roots cfg knows l) (w : Which) {d : Dgram}
    (hd : d ∈ (l.side w).entry.peer.dgram) (hsome : d.remote.isSome = true) :
    Inv P role roots cfg (fun w' n => w' = w ∧ n = d.epoch) l := by
  have hone : ∀ n, (w = w ∧ n = d.epoch) → n ≤ (l.side w).entry.peer.dgramEpoch ∧
      ∀ d' ∈ (l.side w).entry.peer.dgram, d'.epoch = n → d'.remote.isSome = true := by
    rintro n ⟨-, rfl⟩
    refine ⟨(h.side w).2.entry.below d hd, fun d' hd' _ => ?_⟩
    rw [Option.mem_def.mp hd] at hd'
    cases hd'
    exact hsome
  cases w with
  | left =>
      refine ⟨h.leftCfg, h.rightCfg, h.left.settle hone, h.right.settle ?_, h.toLeft, h.toRight⟩
      exact fun n hn => nomatch hn.1
  | right =>
      refine ⟨h.leftCfg, h.rightCfg, h.left.settle ?_, h.right.settle hone, h.toLeft, h.toRight⟩
      exact fun n hn => nomatch hn.1

/-- Once the peer's offer was taken, the shift stands. -/
theorem Inv.shift_stands (h : Inv P role roots cfg knows l) (w : Which) {d d' : Dgram}
    (hd : d ∈ (l.side w).entry.peer.dgram) (hsome : d.remote.isSome = true)
    (ops : List (Which × DgramTurn)) (hops : AllSteps OffersStale (DgramPair.step P) l ops)
    (hd' : d' ∈ ((Foundation.run (DgramPair.step P) l ops).side w).entry.peer.dgram)
    (hepoch : d'.epoch = d.epoch) :
    d'.remote.isSome = true ∧ d'.sess.cfg.rekeyShift = d.sess.cfg.rekeyShift := by
  obtain ⟨hcfg, hend⟩ := h.side w
  obtain ⟨hcfg', hend'⟩ := ((h.settle w hd hsome).run ops hops).side w
  have hsome' := (hend'.entry.settled d.epoch ⟨rfl, rfl⟩).2 d' hd' hepoch
  refine ⟨hsome', ?_⟩
  rw [(hend'.entry.keyed d' hd').agreed hsome', (hend.entry.keyed d hd).agreed hsome, hcfg', hcfg]

end Runs

/-! ## The schedules agree

Both have taken the smaller of the same two shifts. -/

/-- A side whose session was just established. -/
structure Begins (x : DgramEnd) (s : TcpSession) : Prop where
  sess : x.entry.peer.sess = some s
  state : s.state = .established
  next : s.nextDatagramEpoch = 0
  dgram : x.entry.peer.dgram = none
  dgramEpoch : x.entry.peer.dgramEpoch = 0
  past : x.past = []

/-- A channel on the schedule of `shift`, beside the session `s`: packet `i`
that it emitted and every packet it took are of the key generation their numbers
and `shift` make; without the peer's offer there is neither. -/
structure OnSchedule (P : Primitives) (s : TcpSession) (shift : Nat) (d : Dgram) : Prop where
  silent : d.remote = none → d.sess.out = [] ∧ d.sess.opened = []
  fixed : d.remote.isSome = true → d.sess.cfg.rekeyShift = shift
  emits : d.sess.out.length < 2 ^ 64 → ∀ (i : Nat) (hi : i < d.sess.out.length),
    ∃ type ad plain, PacketType type ad ∧ (d.sess.out.get ⟨i, hi⟩).data =
      packet type d.sess.connId i (P.aead.encrypt
        (generationKey P (ChannelUser.keysOf P s.initiator s.exported d.epoch).send
          (i / 2 ^ shift)).key i ad plain)
  accepts : ∀ o ∈ d.sess.opened, o.key =
    (generationKey P (ChannelUser.keysOf P s.initiator s.exported d.epoch).recv
      (o.nonce / 2 ^ shift)).key

theorem onSchedule_of_keyed {s : TcpSession} {shift : Nat} {d : Dgram}
    (h : Keyed P (ChannelUser.keysOf P s.initiator s.exported d.epoch) shift d) :
    OnSchedule P s shift d := by
  have hsilent : d.remote = none → d.sess.out = [] ∧ d.sess.opened = [] := by
    intro hnone
    exact ⟨(h.gated hnone).out, (h.gated hnone).opened⟩
  refine ⟨hsilent, h.agreed, fun hroom i hi => ?_, fun o ho => ?_⟩
  · cases hr : d.remote with
    | none =>
        rw [(hsilent hr).1] at hi
        cases hi
    | some cands =>
        have hshift := h.agreed (by rw [hr]; rfl)
        rw [← hshift]
        exact (h.sending hroom).2 i hi
  · cases hr : d.remote with
    | none =>
        rw [(hsilent hr).2] at ho
        cases ho
    | some cands =>
        have hshift := h.agreed (by rw [hr]; rfl)
        rw [← hshift]
        exact h.receiving.opens o ho

theorem Begins.endInv {x : DgramEnd} {s : TcpSession} (h : Begins x s) (peerShift : Nat) :
    EndInv P s.initiator s.exported peerShift (fun _ => False) x := by
  refine ⟨⟨fun t ht => ?_, ?_, ?_, ?_, fun n hn => hn.elim⟩, ?_⟩
  · rw [h.sess] at ht
    cases ht
    refine ⟨rfl, ?_, fun _ => ?_⟩
    · rw [h.state]
      exact TcpState.noConfusion
    · rw [h.next]
      rfl
  · rw [h.dgramEpoch]
    decide
  · rw [h.dgram]
    exact fun d hd => nomatch hd
  · rw [h.dgram]
    exact fun d hd => nomatch hd
  · rw [h.past]
    exact fun d hd => absurd hd List.not_mem_nil

theorem EndInv.onSchedule {s : TcpSession} {x : DgramEnd}
    (h : EndInv P s.initiator s.exported peerShift known x) :
    ∀ d ∈ x.channels, OnSchedule P s (min x.cfg.rekeyShift peerShift) d := by
  intro d hd
  rcases List.mem_append.mp hd with hd | hd
  · exact onSchedule_of_keyed (h.past d hd)
  · exact onSchedule_of_keyed (h.entry.keyed d (Option.mem_toList.mp hd))

/-- What a turn hands to the socket are packets of the channel it leaves. -/
theorem packets_act (x : DgramEnd) (inbox : List Record) (op : DgramTurn) :
    ∀ z ∈ (x.act P inbox op).2.1, ∀ data, z.packet? = some data →
      ∃ d ∈ (x.act P inbox op).2.2.peer.dgram, ∃ o ∈ d.sess.out, o.data = data := by
  intro z hz data hdata
  cases op with
  | driveDgram env turn now io => exact Entry.packets_driveDgram x.cfg _ env turn now io hz hdata
  | sendDatagram env payload now io => exact Entry.packets_sendDatagram _ env payload now io hz hdata
  | receive now =>
      unfold DgramEnd.act at hz
      cases inbox with
      | nil => cases hz
      | cons r rest => cases hz
  | _ => cases hz

/-- Rekey agreement.  Two nodes, each beside a session just established;
whatever they do and hear, with no offer of the peer but its own and stale ones:
every channel either side held or holds is on the schedule of the smaller shift,
which is not touched any more once the peer's offer was taken; and only packets
of the channel reach the socket. -/
theorem rekey_schedules_agree (P : Primitives) {x y : DgramEnd} {s t : TcpSession}
    (hx : Begins x s) (hy : Begins y t) (ops : List (Which × DgramTurn))
    (hops : AllSteps OffersStale (step P) ⟨x, y, [], []⟩ ops) :
    let v := Foundation.run (step P) ⟨x, y, [], []⟩ ops
    let shift := min x.cfg.rekeyShift y.cfg.rekeyShift
    (∀ d ∈ v.left.channels, OnSchedule P s shift d) ∧
    (∀ d ∈ v.right.channels, OnSchedule P t shift d) ∧
    (∀ w op, ∀ z ∈ ((v.side w).act P (v.inbox w) op).2.1, ∀ data, z.packet? = some data →
      ∃ d ∈ ((v.side w).act P (v.inbox w) op).2.2.peer.dgram, ∃ o ∈ d.sess.out, o.data = data) ∧
    (∀ w, ∀ d ∈ (v.side w).entry.peer.dgram, d.remote.isSome = true → ∀ ops',
      AllSteps OffersStale (step P) v ops' →
      ∀ d' ∈ ((Foundation.run (step P) v ops').side w).entry.peer.dgram, d'.epoch = d.epoch →
        d'.remote.isSome = true ∧ d'.sess.cfg.rekeyShift = d.sess.cfg.rekeyShift) := by
  intro v shift
  have hstart : Inv P (fun w => if w = .left then s.initiator else t.initiator)
      (fun w => if w = .left then s.exported else t.exported)
      (fun w => if w = .left then x.cfg else y.cfg) (fun _ _ => False)
      ⟨x, y, [], []⟩ :=
    ⟨rfl, rfl, hx.endInv _, hy.endInv _, fun r hr => absurd hr List.not_mem_nil,
      fun r hr => absurd hr List.not_mem_nil⟩
  have hv := hstart.run ops hops
  refine ⟨?_, ?_, fun w op => packets_act _ _ op, ?_⟩
  · have hleft := hv.left.onSchedule
    rw [hv.leftCfg] at hleft
    exact hleft
  · have hright := hv.right.onSchedule
    rw [hv.rightCfg, Nat.min_comm] at hright
    exact hright
  · intro w d hd hsome ops' hops' d' hd' hepoch
    exact hv.shift_stands w hd hsome ops' hops' hd' hepoch

/-- Device 1, with a shift of its own. -/
def sampleLeftEnd : DgramEnd where
  cfg := { rekeyShift := 9 }
  entry := DgramLink.sampleLeft.entry

/-- Device 2. -/
def sampleRightEnd : DgramEnd where
  cfg := {}
  entry := DgramLink.sampleRight.entry

/-- A node with a UDP socket. -/
def sampleEnv : DgramEnv where
  udp := { ready := true, srflx := some { port := 40 }, localPort := 4000 }
  server := { port := 7 }

/-- Both open; device 1 hears offers with other values before and behind the one
it takes, punches, and sends a datagram, which device 2 takes. -/
def sampleTurns : List (Which × DgramTurn) :=
  [(.left, .openDatagrams .tcp 10), (.right, .openDatagrams .tcp 10),
    (.left, .record kDgramOffer (encodeDgramOffer 0 63 []) 11),
    (.left, .driveDgram sampleEnv {} 12 []), (.right, .driveDgram sampleEnv {} 12 []),
    (.left, .receive 13), (.left, .record kDgramOffer (encodeDgramOffer 1 63 []) 14),
    (.right, .receive 14),
    (.left, .driveDgram sampleEnv { events := [.nominated { port := 50 }], done := true } 15 []),
    (.left, .sendDatagram sampleEnv [1, 2, 3] 16 [])]

/-- The last packet of device 1. -/
def samplePacket : Bytes :=
  let v := Foundation.run (step Primitives.checksum) ⟨sampleLeftEnd, sampleRightEnd, [], []⟩
    sampleTurns
  ((v.left.entry.peer.dgram.bind fun d => d.sess.out.getLast?).map Outgoing.data).getD []

/-- It reaches device 2. -/
def sampleHeardTurns : List (Which × DgramTurn) :=
  sampleTurns ++ [(.right, .onUdp sampleEnv { port := 50 } samplePacket 17)]

theorem rekey_schedules_agree_sample :
    let v := Foundation.run (step Primitives.checksum) ⟨sampleLeftEnd, sampleRightEnd, [], []⟩
      sampleHeardTurns
    (v.right.entry.peer.dgram.any fun d => d.sess.opened.length = 1) = true ∧
      (∀ d ∈ v.left.channels, OnSchedule Primitives.checksum
        (TcpSession.sampleEnd TcpSession.sampleListener) 9 d) ∧
      ∀ d ∈ v.right.channels, OnSchedule Primitives.checksum
        (TcpSession.sampleAnswerer TcpSession.sampleListener) 9 d := by
  intro v
  have hleft : Begins sampleLeftEnd (TcpSession.sampleEnd TcpSession.sampleListener) :=
    ⟨rfl, by decide +kernel, by decide +kernel, rfl, rfl, rfl⟩
  have hright : Begins sampleRightEnd (TcpSession.sampleAnswerer TcpSession.sampleListener) :=
    ⟨rfl, by decide +kernel, by decide +kernel, rfl, rfl, rfl⟩
  have hstale : AllSteps OffersStale (step Primitives.checksum)
      ⟨sampleLeftEnd, sampleRightEnd, [], []⟩ sampleHeardTurns := by
    decide +kernel
  obtain ⟨hl, hr, -⟩ := rekey_schedules_agree Primitives.checksum hleft hright sampleHeardTurns
    hstale
  exact ⟨by decide +kernel, hl, hr⟩

end DgramPair

end UConnect.Node
