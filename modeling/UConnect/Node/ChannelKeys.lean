/-
  Node/ChannelKeys.lean --- the keys of the datagram channels of one session.

  A side opens, closes and reopens channels beside one TCP session, and hears
  offers; on the channel it holds, the calls of its session come in any order.
  Each channel has the keys of its epoch, and epochs go up; in a channel every
  packet has its own number.  So no two packets the side emits are sealed under
  one key and one nonce.
-/
import UConnect.Node.Datagrams
import UConnect.Session.PacketKeys

set_option autoImplicit false

namespace UConnect.Node

open UConnect.Foundation UConnect.Crypto UConnect.Wire

/-! ## Data model

A peer's entry as the owner of a channel, the operations on it, and the channels
it has had. -/

/-- The channel a peer holds: its epoch and its session. -/
def Entry.channel (e : Entry) : Option (Nat × Session) :=
  e.peer.dgram.map fun d => (d.epoch, d.sess)

/-- A side, and the channels it held before, as it left them. -/
structure ChannelUser where
  cfg : NodeConfig
  entry : Entry
  past : List (Nat × Session) := []

/-- What a side does with its channels, its session and the records it hears. -/
inductive UseOp where
  | openDatagrams (fb : DatagramFallback) (now : Instant)
  | closeDatagrams (now : Instant) (io : List SendResult)
  | driveDgram (udp : UdpView) (now : Instant) (io : List SendResult)
  /-- A record of the peer: an offer, a close, or anything else. -/
  | record (kind : UInt8) (body : Bytes) (now : Instant)
  /-- Any other call of the TCP session. -/
  | tcp (op : TcpSession.Op)
  /-- A call of the session of the channel held. -/
  | channel (op : Session.Op)

namespace ChannelUser

variable (P : Primitives)

/-- The entry after an operation. -/
def act (u : ChannelUser) : UseOp → Entry
  | .openDatagrams fb now => (u.entry.openDatagrams P u.cfg fb now).2
  | .closeDatagrams now io => (u.entry.closeDatagrams P now io).2.2
  | .driveDgram udp now io => (u.entry.driveOffer P u.cfg udp now io).2.2
  | .record kind body now => u.entry.onRecord P u.cfg kind body now
  | .tcp op =>
      { u.entry with
        peer := { u.entry.peer with sess := u.entry.peer.sess.map fun s => s.step P op } }
  | .channel op =>
      { u.entry with
        peer := { u.entry.peer with
          dgram := u.entry.peer.dgram.map fun d => { d with sess := d.sess.step P op } } }

/-- The channel that was held before and is not any more. -/
def retired (old new : Option (Nat × Session)) : List (Nat × Session) :=
  match old with
  | none => []
  | some c => if new.any fun c' => c'.1 = c.1 then [] else [c]

/-- One operation. -/
def step (u : ChannelUser) (op : UseOp) : ChannelUser :=
  { u with
    entry := u.act P op
    past := u.past ++ retired u.entry.channel (u.act P op).channel }

/-- Every channel the side held or holds, in order. -/
def channels (u : ChannelUser) : List (Nat × Session) := u.past ++ u.entry.channel.toList

end ChannelUser

/-! ## What an operation does to session and channel

The channel is kept, with calls of its session, or dropped, or a new one begins. -/

section Moves

variable {P : Primitives} {cfg : NodeConfig}

/-- The session `dgram_open` puts beside a channel's keys. -/
def channelSession (cfg : NodeConfig) (keys : DatagramKeys) (now : Instant) : Session :=
  .create { rekeyShift := cfg.rekeyShift } {} keys.send keys.recv keys.connId now

/-- The TCP session after some calls. -/
def Entry.Calls (P : Primitives) (e e' : Entry) : Prop :=
  ∃ ops, e'.peer.sess = e.peer.sess.map fun s => run (TcpSession.step P) s ops

/-- What can become of session and channel: the channel stays, with some calls
of its session; it is dropped; or another is opened. -/
inductive ChannelMove (P : Primitives) (cfg : NodeConfig) (e e' : Entry) : Prop where
  | keep (hsess : e.Calls P e') (calls : List Session.Call)
      (hchan : e'.channel = e.channel.map fun c => (c.1, run (Session.call P) c.2 calls))
  | drop (hsess : e.Calls P e') (hchan : e'.channel = none)
  | start {s s' : TcpSession} {keys : DatagramKeys} {epoch : Nat} (now : Instant)
      (calls : List Session.Call) (hsess : e.peer.sess = some s)
      (hkeys : s.datagramKeys P epoch = (some keys, s')) (hsess' : e'.peer.sess = some s')
      (hchan : e'.channel = some (epoch, run (Session.call P) (channelSession cfg keys now) calls))

theorem Entry.Calls.refl {e e' : Entry} (h : e'.peer.sess = e.peer.sess) : e.Calls P e' := by
  refine ⟨[], ?_⟩
  rw [h]
  exact Option.map_id'.symm

theorem Entry.Calls.trans {e e' e'' : Entry} (h : e.Calls P e') (h' : e'.Calls P e'') :
    e.Calls P e'' := by
  obtain ⟨ops, hops⟩ := h
  obtain ⟨ops', hops'⟩ := h'
  refine ⟨ops ++ ops', ?_⟩
  rw [hops', hops, Option.map_map]
  congr 1
  funext s
  exact (run_append _ _ _ _).symm

theorem ChannelMove.keep_of_eq {e e' : Entry} (hsess : e'.peer.sess = e.peer.sess)
    (hchan : e'.channel = e.channel) : ChannelMove P cfg e e' := by
  refine .keep (.refl hsess) [] ?_
  rw [hchan]
  exact Option.map_id'.symm

theorem ChannelMove.refl (e : Entry) : ChannelMove P cfg e e := .keep_of_eq rfl rfl

/-- Further calls of the channel's session. -/
theorem ChannelMove.call {e e' e'' : Entry} (h : ChannelMove P cfg e e') (hsess : e''.peer.sess = e'.peer.sess)
    (calls : List Session.Call)
    (hchan : e''.channel = e'.channel.map fun c => (c.1, run (Session.call P) c.2 calls)) :
    ChannelMove P cfg e e'' := by
  cases h with
  | keep hs calls' hc =>
      refine .keep (hs.trans (.refl hsess)) (calls' ++ calls) ?_
      rw [hchan, hc, Option.map_map]
      congr 1
      funext c
      exact congrArg (Prod.mk c.1) (run_append _ _ _ _).symm
  | drop hs hc =>
      refine .drop (hs.trans (.refl hsess)) ?_
      rw [hchan, hc, Option.map_none]
  | start now calls' hs hkeys hs' hc =>
      refine .start now (calls' ++ calls) hs hkeys (hsess.trans hs') ?_
      rw [hchan, hc, Option.map_some]
      exact congrArg (fun t => some (_, t)) (run_append _ _ _ _).symm

theorem channel_dgramSetPath (e : Entry) (p : DatagramPath) :
    (e.dgramSetPath p).channel = e.channel ∧ (e.dgramSetPath p).peer.sess = e.peer.sess := by
  rw [Entry.channel, Entry.channel, Entry.dgramSetPath_peer]
  refine ⟨?_, rfl⟩
  cases e.peer.dgram <;> rfl

theorem channel_markOffered (e : Entry) : e.markOffered.channel = e.channel := by
  unfold Entry.channel Entry.markOffered
  cases e.peer.dgram <;> rfl

theorem channel_dgramDrop (e : Entry) :
    e.dgramDrop.channel = none ∧ e.dgramDrop.peer.sess = e.peer.sess := by
  rw [Entry.channel, Entry.dgramDrop_peer]
  exact ⟨rfl, rfl⟩

theorem calls_flushPeer (rs : List SendResult) (e : Entry) :
    e.Calls P (Entry.flushPeer rs e).2 ∧
      (Entry.flushPeer rs e).2.peer.dgram = e.peer.dgram ∧
      (Entry.flushPeer rs e).2.peer.dgramEpoch = e.peer.dgramEpoch := by
  induction rs generalizing e with
  | nil => exact ⟨.refl rfl, rfl, rfl⟩
  | cons r rs ih =>
      unfold Entry.flushPeer
      split
      · exact ⟨.refl rfl, rfl, rfl⟩
      cases r with
      | error => exact ⟨⟨[.onEof], rfl⟩, rfl, rfl⟩
      | wrote n =>
          simp only
          split
          · exact ⟨.refl rfl, rfl, rfl⟩
          · obtain ⟨hcalls, hdgram, hhigh⟩ :=
              ih { e with peer := { e.peer with out := e.peer.out.drop n } }
            exact ⟨hcalls, hdgram, hhigh⟩

/-- Sending a record calls the session; the channel is left alone. -/
theorem calls_sendRecord (e : Entry) (kind : UInt8) (body : Bytes) (now : Instant)
    (io : List SendResult) :
    e.Calls P (e.sendRecord P kind body now io).2.2 ∧
      (e.sendRecord P kind body now io).2.2.peer.dgram = e.peer.dgram ∧
      (e.sendRecord P kind body now io).2.2.peer.dgramEpoch = e.peer.dgramEpoch := by
  unfold Entry.sendRecord
  simp only
  split
  · exact ⟨.refl rfl, rfl, rfl⟩
  split
  · exact ⟨.refl rfl, rfl, rfl⟩
  · rename_i s hs
    split
    · exact ⟨.refl rfl, rfl, rfl⟩
    · have hqueue : e.Calls P { e with
          peer := { e.peer with
            sess := some (s.send P kind body now).2.takeOutput.2
            out := e.peer.out ++ (s.send P kind body now).2.takeOutput.1 } } := by
        refine ⟨[.send kind body now, .takeOutput], ?_⟩
        rw [hs]
        rfl
      obtain ⟨hcalls, hdgram, hhigh⟩ := calls_flushPeer (P := P) io { e with
        peer := { e.peer with
          sess := some (s.send P kind body now).2.takeOutput.2
          out := e.peer.out ++ (s.send P kind body now).2.takeOutput.1 } }
      exact ⟨hqueue.trans hcalls, hdgram, hhigh⟩

theorem ChannelMove.dgramOpen (e : Entry) (epoch : Nat) (fb : DatagramFallback) (now : Instant) :
    ChannelMove P cfg e (e.dgramOpen P cfg epoch fb now).2 := by
  unfold Entry.dgramOpen
  cases hs : e.peer.sess with
  | none => exact .refl e
  | some s =>
      rcases hkeys : s.datagramKeys P epoch with ⟨- | keys, s'⟩
      · simp only [hkeys]
        refine .keep ⟨[.datagramKeys epoch], ?_⟩ [] Option.map_id'.symm
        rw [hs, Option.map_some, run_cons, run_nil, TcpSession.step, hkeys]
      · simp only [hkeys]
        obtain ⟨hchan, hsess⟩ := channel_dgramSetPath
          { e with
            peer := { e.peer with
              sess := some s'
              dgram := some (Entry.newDgram cfg epoch fb keys now)
              dgramEpoch := max e.peer.dgramEpoch epoch } } .opening
        exact .start now [] hs hkeys hsess hchan

theorem ChannelMove.takeOffer {e e' : Entry} (h : ChannelMove P cfg e e') (shift : Nat)
    (cands : List Candidate) : ChannelMove P cfg e (e'.takeOffer cfg shift cands) := by
  unfold Entry.takeOffer
  cases hd : e'.peer.dgram with
  | none => exact h
  | some d =>
      simp only
      split
      · exact h
      · split
        · exact h
        · refine h.call rfl [.configureRekeyShift (min cfg.rekeyShift shift)] ?_
          rw [Entry.channel, Entry.channel, hd]
          rfl

theorem ChannelMove.dgramOnOffer (e : Entry) (body : Bytes) (now : Instant) :
    ChannelMove P cfg e (e.dgramOnOffer P cfg body now) := by
  have hopened : ∀ epoch fb shift cands, ChannelMove P cfg e
      (if !(e.dgramOpen P cfg epoch fb now).1 then (e.dgramOpen P cfg epoch fb now).2
        else (e.dgramOpen P cfg epoch fb now).2.takeOffer cfg shift cands) := by
    intro epoch fb shift cands
    split
    · exact .dgramOpen e epoch fb now
    · exact (ChannelMove.dgramOpen e epoch fb now).takeOffer shift cands
  unfold Entry.dgramOnOffer
  split
  · exact .refl e
  split
  · split
    · exact .refl e
    split
    · split
      · exact .refl e
      · exact hopened _ _ _ _
    · exact (ChannelMove.refl e).takeOffer _ _
  · split
    · exact .refl e
    · exact hopened _ _ _ _

theorem ChannelMove.dgramDrop {e e' : Entry} (h : e.Calls P e') : ChannelMove P cfg e e'.dgramDrop := by
  obtain ⟨hchan, hsess⟩ := channel_dgramDrop e'
  exact .drop (h.trans (.refl hsess)) hchan

theorem ChannelMove.onRecord (e : Entry) (kind : UInt8) (body : Bytes) (now : Instant) :
    ChannelMove P cfg e (e.onRecord P cfg kind body now) := by
  unfold Entry.onRecord
  split
  · exact .keep_of_eq rfl rfl
  split
  · exact .dgramOnOffer e body now
  split
  · split
    · exact .keep_of_eq rfl rfl
    · exact .refl e
  split
  · split
    · split
      · exact .dgramDrop (.refl rfl)
      · exact .refl e
    · exact .refl e
  · exact .refl e

/-- Whatever a side does. -/
theorem ChannelMove.act (u : ChannelUser) (op : UseOp) : ChannelMove P u.cfg u.entry (u.act P op) := by
  cases op with
  | openDatagrams fb now =>
      show ChannelMove P u.cfg u.entry (u.entry.openDatagrams P u.cfg fb now).2
      unfold Entry.openDatagrams
      split
      · exact .refl _
      split
      · exact .refl _
      split
      · exact .refl _
      split
      · exact .refl _
      · exact .dgramOpen _ _ _ _
  | closeDatagrams now io =>
      show ChannelMove P u.cfg u.entry (u.entry.closeDatagrams P now io).2.2
      unfold Entry.closeDatagrams
      split
      · exact .refl _
      · exact .dgramDrop (calls_sendRecord _ _ _ _ _).1
  | driveDgram udp now io =>
      show ChannelMove P u.cfg u.entry (u.entry.driveOffer P u.cfg udp now io).2.2
      unfold Entry.driveOffer
      split
      · split
        · exact .refl _
        split
        · rename_i s d _ _ _ _
          obtain ⟨hcalls, hdgram, -⟩ := calls_sendRecord (P := P) u.entry kDgramOffer
            (Entry.offerBody u.cfg d udp) now io
          refine .keep (hcalls.trans (.refl rfl)) [] ?_
          have hchan := congrArg (Option.map fun d => (d.epoch, d.sess)) hdgram
          exact ((channel_markOffered _).trans hchan).trans Option.map_id'.symm
        · exact .refl _
      · exact .refl _
  | record kind body now => exact .onRecord u.entry kind body now
  | tcp op =>
      refine .keep ⟨[op], rfl⟩ [] ?_
      exact Option.map_id'.symm
  | channel op =>
      refine .keep (.refl rfl) [.op op] ?_
      show (u.entry.peer.dgram.map _).map _ = (u.entry.peer.dgram.map _).map _
      rw [Option.map_map, Option.map_map]
      rfl

end Moves

/-! ## Epochs go up, and each has its keys

A channel begins under an epoch above all before it, with the keys the session
derives for it. -/

namespace ChannelUser

variable {P : Primitives} {initiator : Bool} {root : Hash}

/-- The keys of an epoch on a side. -/
def keysOf (P : Primitives) (initiator : Bool) (root : Hash) (epoch : Nat) : DatagramKeys :=
  epochKeys P initiator ((ratchet P)^[epoch] root) epoch

/-- What holds of a side at all times. -/
structure Inv (P : Primitives) (initiator : Bool) (root : Hash) (u : ChannelUser) : Prop where
  rooted : ∀ s ∈ u.entry.peer.sess, TcpSession.Rooted P initiator root s
  keyed : ∀ c ∈ u.channels, Sending P (keysOf P initiator root c.1).send c.2
  below : ∀ c ∈ u.channels, ∀ s ∈ u.entry.peer.sess, c.1 < s.nextDatagramEpoch
  increasing : (u.channels.map Prod.fst).Pairwise (· < ·)

theorem sending_calls {k : SymKey} {s : Session} (h : Sending P k s) (calls : List Session.Call) :
    Sending P k (run (Session.call P) s calls) :=
  run_invariant (fun _ c hs => hs.call c) h calls

theorem Inv.rooted_calls {u : ChannelUser} (h : Inv P initiator root u) {e : Entry}
    (hcalls : u.entry.Calls P e) :
    (∀ s ∈ e.peer.sess, TcpSession.Rooted P initiator root s) ∧
      ∀ c ∈ u.channels, ∀ s ∈ e.peer.sess, c.1 < s.nextDatagramEpoch := by
  obtain ⟨ops, hops⟩ := hcalls
  constructor
  · intro s hs
    rw [hops, Option.mem_def] at hs
    obtain ⟨t, ht, rfl⟩ := Option.map_eq_some_iff.mp hs
    exact run_invariant (fun _ op hs => hs.step op) (h.rooted t ht) ops
  · intro c hc s hs
    rw [hops, Option.mem_def] at hs
    obtain ⟨t, ht, rfl⟩ := Option.map_eq_some_iff.mp hs
    exact Nat.lt_of_lt_of_le (h.below c hc t ht) ((h.rooted t ht).nextDatagramEpoch_run ops)

/-- The channels after a turn. -/
theorem channels_keep {u : ChannelUser} {op : UseOp} {f : Nat × Session → Nat × Session}
    (hf : ∀ c, (f c).1 = c.1) (hchan : (u.act P op).channel = u.entry.channel.map f) :
    (u.step P op).channels = u.past ++ (u.entry.channel.map f).toList := by
  unfold channels step
  simp only [hchan]
  cases u.entry.channel with
  | none => simp [retired]
  | some c => simp [retired, hf c]

theorem channels_drop {u : ChannelUser} {op : UseOp} (hchan : (u.act P op).channel = none) :
    (u.step P op).channels = u.channels := by
  unfold channels step
  simp only [hchan]
  cases u.entry.channel with
  | none => simp [retired]
  | some c => simp [retired]

theorem channels_start {u : ChannelUser} {op : UseOp} {c : Nat × Session}
    (hchan : (u.act P op).channel = some c) (hnew : ∀ c' ∈ u.channels, c'.1 < c.1) :
    (u.step P op).channels = u.channels ++ [c] := by
  unfold channels at hnew
  unfold channels step
  simp only [hchan]
  cases hc : u.entry.channel with
  | none => simp [retired]
  | some c' =>
      have hlt := hnew c' (by simp [hc])
      have hne : c.1 ≠ c'.1 := Nat.ne_of_gt hlt
      simp [retired, hne]

theorem Inv.step {u : ChannelUser} (h : Inv P initiator root u) (op : UseOp) :
    Inv P initiator root (u.step P op) := by
  cases ChannelMove.act (P := P) u op with
  | keep hcalls calls hchan =>
      obtain ⟨hrooted, hbelow⟩ := h.rooted_calls hcalls
      have heq := channels_keep (P := P) (f := fun c => (c.1, run (Session.call P) c.2 calls))
        (fun _ => rfl) hchan
      have hmem : ∀ c ∈ (u.step P op).channels, ∃ c' ∈ u.channels, c.1 = c'.1 ∧
          ∃ calls, c.2 = run (Session.call P) c'.2 calls := by
        intro c hc
        rw [heq] at hc
        rcases List.mem_append.mp hc with hc | hc
        · exact ⟨c, List.mem_append_left _ hc, rfl, [], rfl⟩
        · obtain ⟨c', hc', rfl⟩ := Option.map_eq_some_iff.mp (Option.mem_toList.mp hc)
          refine ⟨c', List.mem_append_right _ (Option.mem_toList.mpr hc'), rfl, calls, rfl⟩
      refine ⟨hrooted, fun c hc => ?_, fun c hc s hs => ?_, ?_⟩
      · obtain ⟨c', hc', hepoch, calls', hsess⟩ := hmem c hc
        rw [hepoch, hsess]
        exact sending_calls (h.keyed c' hc') calls'
      · obtain ⟨c', hc', hepoch, -⟩ := hmem c hc
        rw [hepoch]
        exact hbelow c' hc' s hs
      · have hsame : (u.step P op).channels.map Prod.fst = u.channels.map Prod.fst := by
          rw [heq, channels, List.map_append, List.map_append]
          cases u.entry.channel <;> rfl
        rw [hsame]
        exact h.increasing
  | drop hcalls hchan =>
      obtain ⟨hrooted, hbelow⟩ := h.rooted_calls hcalls
      refine ⟨hrooted, ?_, ?_, ?_⟩
      · rw [channels_drop hchan]
        exact h.keyed
      · rw [channels_drop hchan]
        exact hbelow
      · rw [channels_drop hchan]
        exact h.increasing
  | @start s s' keys epoch now calls hsess hkeys hsess' hchan =>
      have hgiven : ¬ s.Refuses epoch := by
        intro href
        rw [TcpSession.datagramKeys_of_refuses href] at hkeys
        cases hkeys
      obtain ⟨hkeysOf, hrooted⟩ := (h.rooted s hsess).datagramKeys hgiven
      obtain ⟨hle, hnext⟩ := TcpSession.nextDatagramEpoch_datagramKeys (P := P) hgiven
      rw [hkeys] at hkeysOf hrooted hnext
      have hnew : ∀ c ∈ u.channels, c.1 < epoch := by
        intro c hc
        exact Nat.lt_of_lt_of_le (h.below c hc s hsess) hle
      have heq := channels_start hchan hnew
      refine ⟨?_, ?_, ?_, ?_⟩
      · intro t ht
        rw [show (u.step P op).entry.peer.sess = some s' from hsess'] at ht
        cases ht
        exact hrooted
      · intro c hc
        rw [heq] at hc
        rcases List.mem_append.mp hc with hc | hc
        · exact h.keyed c hc
        · rw [List.mem_singleton.mp hc]
          refine sending_calls ?_ calls
          rw [Option.some.inj hkeysOf]
          exact sending_create _ _ _ _ _ _ u.cfg.rekeyShift_range.2
      · intro c hc t ht
        rw [show (u.step P op).entry.peer.sess = some s' from hsess'] at ht
        cases ht
        rw [heq] at hc
        rcases List.mem_append.mp hc with hc | hc
        · have hlt := hnew c hc
          simp only at hnext
          omega
        · rw [List.mem_singleton.mp hc]
          simp only at hnext ⊢
          omega
      · rw [heq, List.map_append, List.pairwise_append]
        refine ⟨h.increasing, List.pairwise_singleton _ _, fun n hn m hm => ?_⟩
        obtain ⟨c, hc, rfl⟩ := List.mem_map.mp hn
        rw [List.mem_singleton.mp hm]
        exact hnew c hc

/-! ## No key and nonce twice

Within a channel the packets are numbered, and between channels the keys differ. -/

/-- The key of packet `i` of a channel: the channel's send key, rekeyed as often
as the packet's number and the shift say. -/
def packetKey (P : Primitives) (initiator : Bool) (root : Hash) (c : Nat × Session) (i : Nat) :
    SymKey :=
  (generationKey P (keysOf P initiator root c.1).send (i / 2 ^ c.2.cfg.rekeyShift)).key

/-- The key and the nonce of every packet emitted so far. -/
def uses (P : Primitives) (initiator : Bool) (root : Hash) (u : ChannelUser) :
    List (SymKey × Nat) :=
  u.channels.flatMap fun c =>
    (List.range c.2.out.length).map fun i => (packetKey P initiator root c i, i)

/-- The ideal key derivation, of the keys this side used: channels of distinct
epochs share none. -/
def KeysApart (P : Primitives) (initiator : Bool) (root : Hash) (u : ChannelUser) : Prop :=
  ∀ c ∈ u.channels, ∀ c' ∈ u.channels, c.1 ≠ c'.1 →
    ∀ i < c.2.out.length, ∀ j < c'.2.out.length,
      packetKey P initiator root c i ≠ packetKey P initiator root c' j

theorem nodup_uses {u : ChannelUser} (hinc : (u.channels.map Prod.fst).Pairwise (· < ·))
    (hapart : KeysApart P initiator root u) : (u.uses P initiator root).Nodup := by
  unfold uses
  rw [List.nodup_flatMap]
  constructor
  · intro c _
    refine List.Nodup.map ?_ List.nodup_range
    intro i j hij
    exact congrArg Prod.snd hij
  · refine (List.pairwise_map.mp hinc).imp_of_mem ?_
    intro c c' hc hc' hlt x hx hx'
    obtain ⟨i, hi, rfl⟩ := List.mem_map.mp hx
    obtain ⟨j, hj, heq⟩ := List.mem_map.mp hx'
    refine hapart c hc c' hc' (Nat.ne_of_lt hlt) i (List.mem_range.mp hi) j
      (List.mem_range.mp hj) ?_
    exact (congrArg Prod.fst heq).symm

/-- Nonce uniqueness.  Beside a session just established, whatever the side does
and hears, its channels have increasing epochs; packet `i` of a channel is
sealed at nonce `i` under the send key of its epoch, rekeyed as the shift says;
a send that fails emits nothing and uses no number; and where the keys of
distinct epochs are apart, no key and nonce are used twice. -/
theorem nonces_never_repeat (P : Primitives) {u : ChannelUser} {s : TcpSession}
    (hsess : u.entry.peer.sess = some s) (hstate : s.state = .established)
    (hnext : s.nextDatagramEpoch = 0) (hdgram : u.entry.peer.dgram = none) (hpast : u.past = [])
    (ops : List UseOp) :
    let v := run (step P) u ops
    (∀ c ∈ v.channels, c.2.out.length < 2 ^ 64) →
    (v.channels.map Prod.fst).Pairwise (· < ·) ∧
    (∀ c ∈ v.channels, ∀ (i : Nat) (hi : i < c.2.out.length), ∃ type ad plain,
      PacketType type ad ∧ (c.2.out.get ⟨i, hi⟩).data = packet type c.2.connId i
        (P.aead.encrypt (packetKey P s.initiator s.exported c i) i ad plain)) ∧
    (∀ (t : Session) (payload : Bytes) (now : Instant), (t.send P payload now).1 = none →
      (t.send P payload now).2.out = t.out ∧
        (t.send P payload now).2.sendCounter = t.sendCounter) ∧
    (KeysApart P s.initiator s.exported v → (v.uses P s.initiator s.exported).Nodup) := by
  intro v hroom
  have hchannels : u.channels = [] := by
    unfold channels Entry.channel
    rw [hpast, hdgram]
    rfl
  have hinit : Inv P s.initiator s.exported u := by
    refine ⟨fun t ht => ?_, ?_, ?_, ?_⟩
    · rw [hsess] at ht
      cases ht
      refine ⟨rfl, ?_, fun _ => ?_⟩
      · rw [hstate]
        exact TcpState.noConfusion
      · rw [hnext]
        rfl
    · rw [hchannels]
      exact fun c hc => absurd hc List.not_mem_nil
    · rw [hchannels]
      exact fun c hc => absurd hc List.not_mem_nil
    · rw [hchannels]
      exact .nil
  have hinv : Inv P s.initiator s.exported v :=
    run_invariant (fun _ op hv => hv.step op) hinit ops
  refine ⟨hinv.increasing, ?_, ?_, nodup_uses hinv.increasing⟩
  · intro c hc i hi
    exact (hinv.keyed c hc (hroom c hc)).2 i hi
  · intro t payload now hnone
    rcases t.send_cases (P := P) payload now with ⟨-, hout, hcounter⟩ | ⟨hsome, -⟩
    · exact ⟨hout, hcounter⟩
    · rw [hsome] at hnone
      cases hnone

/-- A side that sends on a channel, closes it with a notice, and is offered the
next. -/
def sampleUser : ChannelUser :=
  run (step Primitives.checksum) { cfg := {}, entry := DgramLink.sampleLeft.entry }
    [.openDatagrams .tcp 10, .channel (.send [1, 2] 11), .channel (.closeWithNotice 3),
      .record kDgramOffer (encodeDgramOffer 2 16 []) 12, .channel (.send [4] 13)]

theorem nonces_never_repeat_sample :
    sampleUser.channels.map (fun c => (c.1, c.2.out.length)) = [(1, 4), (2, 1)] ∧
      (sampleUser.uses Primitives.checksum true
        (TcpSession.sampleEnd TcpSession.sampleListener).exported).Nodup := by
  have hmain := nonces_never_repeat Primitives.checksum
    (u := { cfg := {}, entry := DgramLink.sampleLeft.entry })
    (s := TcpSession.sampleEnd TcpSession.sampleListener) rfl (by decide +kernel)
    (by decide +kernel) rfl rfl
    [.openDatagrams .tcp 10, .channel (.send [1, 2] 11), .channel (.closeWithNotice 3),
      .record kDgramOffer (encodeDgramOffer 2 16 []) 12, .channel (.send [4] 13)]
  have hroom : ∀ c ∈ sampleUser.channels, c.2.out.length < 2 ^ 64 := by
    decide +kernel
  have hapart : KeysApart Primitives.checksum true
      (TcpSession.sampleEnd TcpSession.sampleListener).exported sampleUser := by
    unfold KeysApart
    decide +kernel
  refine ⟨by decide +kernel, ?_⟩
  have hrole : (TcpSession.sampleEnd TcpSession.sampleListener).initiator = true := by
    decide +kernel
  rw [hrole] at hmain
  exact (hmain hroom).2.2.2 hapart

end ChannelUser

end UConnect.Node
