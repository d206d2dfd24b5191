/-
  Server/Connections.lean --- where the server's connections are and what counts
  them.

  Most of what the threads do changes one connection in place: bytes pass, it
  dies, it becomes a control connection.  `Calms` collects these changes, and
  whatever is said here about addresses, waiting legs and pairs survives them.
  What is left are the few actions that take a connection in, let it wait, pair
  it, move it or close it, and each has one lemma about the invariant.
-/
import UConnect.Server.Rendezvous

set_option autoImplicit false

namespace UConnect.Server.Rendezvous

open UConnect UConnect.Foundation UConnect.Crypto UConnect.Wire

variable {P : Primitives} {s s' s'' : Rendezvous} {p : Place} {key : ConnKey} {c : Conn}

/-! ## The maps

Keys tell the held connections apart, so looking one up finds the one that was
meant. -/

/-- What a lookup finds is held at that place, under that key. -/
theorem mem_of_find (h : s.find p key = some c) : ⟨p, c⟩ ∈ s.held ∧ c.key = key := by
  obtain ⟨⟨q, d⟩, hd, rfl⟩ := Option.map_eq_some_iff.mp h
  have hmem := List.mem_of_find?_eq_some hd
  have htest := List.find?_some hd
  simp only [Bool.and_eq_true, decide_eq_true_eq] at htest
  obtain ⟨rfl, hkey⟩ := htest
  exact ⟨hmem, hkey⟩

/-- And what it does not find is not held there. -/
theorem not_held_of_find (h : s.find p key = none) {x : Held} (hx : x ∈ s.held)
    (hkey : x.conn.key = key) : x.place ≠ p := by
  intro hp
  have hnone := List.find?_eq_none.mp (Option.map_eq_none_iff.mp h) x hx
  simp [hp, hkey] at hnone

/-- No two connections have the same key. -/
def Distinct (s : Rendezvous) : Prop := (s.held.map fun h => h.conn.key).Nodup

/-- With distinct keys a connection is known by its key, wherever it is held. -/
theorem Distinct.eq (h : s.Distinct) {x y : Held} (hx : x ∈ s.held) (hy : y ∈ s.held)
    (hkey : x.conn.key = y.conn.key) : x = y := List.inj_on_of_nodup_map h hx hy hkey

/-- So a held connection is the one a lookup at its place finds. -/
theorem Distinct.find (h : s.Distinct) {x : Held} (hx : x ∈ s.held) :
    s.find x.place x.conn.key = some x.conn := by
  cases hf : s.find x.place x.conn.key with
  | none => exact absurd rfl (not_held_of_find hf hx rfl)
  | some d =>
      obtain ⟨hmem, hkey⟩ := mem_of_find hf
      rw [h.eq hx hmem hkey.symm]

theorem mem_modify {f : Conn → Conn} {x : Held} :
    x ∈ (s.modify p key f).held ↔ ∃ y ∈ s.held,
      (if y.place = p ∧ y.conn.key = key then { y with conn := f y.conn } else y) = x :=
  List.mem_map

/-- Every connection there has been. -/
def all (s : Rendezvous) : List Conn := s.held.map Held.conn ++ s.closed

/-- Their keys. -/
def keys (s : Rendezvous) : List ConnKey := s.all.map Conn.key

theorem keys_append (s : Rendezvous) :
    s.keys = (s.held.map fun x => x.conn.key) ++ s.closed.map Conn.key := by
  rw [keys, all, List.map_append, List.map_map]
  rfl

theorem keys_eq (hheld : (s'.held.map fun x => x.conn.key) = s.held.map fun x => x.conn.key)
    (hclosed : s'.closed = s.closed) : s'.keys = s.keys := by
  rw [keys_append, keys_append, hheld, hclosed]

/-! ## Calm changes

A change of one connection that leaves its key, its address, its partner and its
relay alone, and its mode where that matters. -/

/-- A connection changed in place: it keeps its address, a leg keeps its relay,
and only a new connection changes its mode. -/
structure Kin (x y : Held) : Prop where
  place : y.place = x.place
  key : y.conn.key = x.conn.key
  peer : y.conn.peer = x.conn.peer
  dead : x.conn.dead = true → y.conn.dead = true
  mode : y.conn.mode = x.conn.mode ∨ x.conn.mode = .new ∧ y.conn.mode = .control
  relay : x.conn.raw = true → y.conn.relayId = x.conn.relayId ∧
    y.conn.relaySide = x.conn.relaySide ∧ y.conn.partner = x.conn.partner

namespace Kin

variable {x y z : Held}

theorem refl (x : Held) : Kin x x := ⟨rfl, rfl, rfl, id, .inl rfl, fun _ => ⟨rfl, rfl, rfl⟩⟩

/-- A mode other than the first two is kept both ways. -/
theorem mode_iff (h : Kin x y) {m : Mode} (hnew : m ≠ .new) (hcontrol : m ≠ .control) :
    y.conn.mode = m ↔ x.conn.mode = m := by
  rcases h.mode with heq | ⟨hx, hy⟩
  · rw [heq]
  · rw [hx, hy]
    exact ⟨fun he => absurd he.symm hcontrol, fun he => absurd he.symm hnew⟩

/-- A leg stays a leg through a calm change, and nothing becomes one. -/
theorem splice_iff (h : Kin x y) : y.conn.mode = .splice ↔ x.conn.mode = .splice :=
  h.mode_iff (by decide) (by decide)

/-- So does a leg that waits. -/
theorem waiting_iff (h : Kin x y) : y.conn.mode = .relayWaiting ↔ x.conn.mode = .relayWaiting :=
  h.mode_iff (by decide) (by decide)

theorem raw_iff (h : Kin x y) : y.conn.raw = x.conn.raw := by
  rw [Conn.raw, Conn.raw, decide_eq_decide.mpr h.splice_iff, decide_eq_decide.mpr h.waiting_iff]

theorem trans (h : Kin x y) (h' : Kin y z) : Kin x z where
  place := h'.place.trans h.place
  key := h'.key.trans h.key
  peer := h'.peer.trans h.peer
  dead := fun hd => h'.dead (h.dead hd)
  mode := by
    rcases h'.mode with heq | ⟨hy, hz⟩
    · rw [heq]
      exact h.mode
    · rcases h.mode with heq | ⟨-, hcontrol⟩
      · exact .inr ⟨heq ▸ hy, hz⟩
      · rw [hcontrol] at hy
        cases hy
  relay := by
    intro hraw
    obtain ⟨hid, hside, hpartner⟩ := h.relay hraw
    obtain ⟨hid', hside', hpartner'⟩ := h'.relay (h.raw_iff.trans hraw)
    exact ⟨hid'.trans hid, hside'.trans hside, hpartner'.trans hpartner⟩

end Kin

/-- Every connection changed in place, and none of what the loop keeps beside
them. -/
structure Kins (s s' : Rendezvous) : Prop where
  held : ∃ g, s'.held = s.held.map g ∧ ∀ x ∈ s.held, Kin x (g x)
  cfg : s'.cfg = s.cfg
  perIp : s'.perIp = s.perIp
  waiting : s'.waiting = s.waiting
  nextKey : s'.nextKey = s.nextKey
  spliced : s'.spliced = s.spliced
  doing : s'.doing = s.doing
  closed : s'.closed = s.closed

namespace Kins

/-- What is not mentioned here may change freely. -/
theorem of_held (hheld : s'.held = s.held) (hcfg : s'.cfg = s.cfg) (hip : s'.perIp = s.perIp)
    (hwaiting : s'.waiting = s.waiting) (hnext : s'.nextKey = s.nextKey)
    (hspliced : s'.spliced = s.spliced) (hdoing : s'.doing = s.doing)
    (hclosed : s'.closed = s.closed) : Kins s s' :=
  ⟨⟨id, by rw [hheld, List.map_id], fun x _ => Kin.refl x⟩, hcfg, hip, hwaiting, hnext, hspliced,
    hdoing, hclosed⟩

theorem trans (h : Kins s s') (h' : Kins s' s'') : Kins s s'' where
  held := by
    obtain ⟨g, hg, hkin⟩ := h.held
    obtain ⟨g', hg', hkin'⟩ := h'.held
    refine ⟨g' ∘ g, by rw [hg', hg, List.map_map], fun x hx => ?_⟩
    exact (hkin x hx).trans (hkin' (g x) (hg ▸ List.mem_map_of_mem hx))
  cfg := h'.cfg.trans h.cfg
  perIp := h'.perIp.trans h.perIp
  waiting := h'.waiting.trans h.waiting
  nextKey := h'.nextKey.trans h.nextKey
  spliced := h'.spliced.trans h.spliced
  doing := h'.doing.trans h.doing
  closed := h'.closed.trans h.closed

/-- One connection is written. -/
theorem modify {f : Conn → Conn}
    (hf : ∀ x ∈ s.held, x.place = p → x.conn.key = key → Kin x { x with conn := f x.conn }) :
    Kins s (s.modify p key f) := by
  refine ⟨⟨_, rfl, fun x hx => ?_⟩, rfl, rfl, rfl, rfl, rfl, rfl, rfl⟩
  split
  · rename_i hat
    exact hf x hx hat.1 hat.2
  · exact Kin.refl x

end Kins

/-- What tells where a connection is, whose it is and what it is for. -/
def Held.tag (x : Held) : Place × ConnKey × Address × Mode :=
  (x.place, x.conn.key, x.conn.peer, x.conn.mode)

/-- No connection changes its mode either. -/
structure Calms (s s' : Rendezvous) : Prop extends Kins s s' where
  tags : s'.held.map Held.tag = s.held.map Held.tag

namespace Calms

theorem of_held (hheld : s'.held = s.held) (hcfg : s'.cfg = s.cfg) (hip : s'.perIp = s.perIp)
    (hwaiting : s'.waiting = s.waiting) (hnext : s'.nextKey = s.nextKey)
    (hspliced : s'.spliced = s.spliced) (hdoing : s'.doing = s.doing)
    (hclosed : s'.closed = s.closed) : Calms s s' :=
  ⟨Kins.of_held hheld hcfg hip hwaiting hnext hspliced hdoing hclosed, by rw [hheld]⟩

theorem refl (s : Rendezvous) : Calms s s := of_held rfl rfl rfl rfl rfl rfl rfl rfl

theorem trans (h : Calms s s') (h' : Calms s' s'') : Calms s s'' :=
  ⟨h.toKins.trans h'.toKins, h'.tags.trans h.tags⟩

/-- One connection is written. -/
theorem modify {f : Conn → Conn} (hf : ∀ x ∈ s.held, x.place = p → x.conn.key = key →
      Kin x { x with conn := f x.conn } ∧ (f x.conn).mode = x.conn.mode) :
    Calms s (s.modify p key f) := by
  refine ⟨Kins.modify fun x hx hplace hkey => (hf x hx hplace hkey).1, ?_⟩
  rw [Rendezvous.modify, List.map_map]
  refine List.map_congr_left fun x hx => ?_
  rw [Function.comp_apply]
  split
  · rename_i hat
    obtain ⟨hkin, hmode⟩ := hf x hx hat.1 hat.2
    rw [Held.tag, Held.tag, hkin.key, hkin.peer, hmode]
  · rfl

/-- What is written does not show in the maps. -/
theorem modify_data {k : ConnKey} {f : Conn → Conn}
    (hf : ∀ c, (f c).key = c.key ∧ (f c).peer = c.peer ∧ (c.dead = true → (f c).dead = true) ∧
      (f c).mode = c.mode ∧ (f c).relayId = c.relayId ∧ (f c).relaySide = c.relaySide ∧
      (f c).partner = c.partner) :
    Calms s (s.modify p k f) := by
  refine modify fun x _ _ _ => ?_
  obtain ⟨hkey, hpeer, hdead, hmode, hid, hside, hpartner⟩ := hf x.conn
  exact ⟨⟨rfl, hkey, hpeer, hdead, .inl hmode, fun _ => ⟨hid, hside, hpartner⟩⟩, hmode⟩

theorem killAt (s : Rendezvous) (p : Place) (key : ConnKey) : Calms s (s.killAt p key) :=
  modify_data fun _ => ⟨rfl, rfl, fun _ => rfl, rfl, rfl, rfl, rfl⟩

theorem charge (s : Rendezvous) (id : RelayId) (bytes : Nat) (now : Instant) :
    Calms s (s.charge id bytes now).2 := of_held rfl rfl rfl rfl rfl rfl rfl rfl

end Calms

/-! ## What is calm

Reading, writing and dying are calm; so are the replies the service sends. -/

theorem calms_deliver (s : Rendezvous) (f : Framed) : Calms s (s.deliver f) := by
  unfold deliver
  cases s.find .loop f.dst with
  | none => exact Calms.refl s
  | some c =>
      dsimp only
      split
      · exact Calms.refl s
      · split
        · exact Calms.killAt s _ _
        · exact Calms.modify_data fun _ => ⟨rfl, rfl, id, rfl, rfl, rfl, rfl⟩

theorem calms_foldl_deliver (fs : List Framed) (s : Rendezvous) : Calms s (fs.foldl deliver s) := by
  induction fs generalizing s with
  | nil => exact Calms.refl s
  | cons f fs ih => exact (calms_deliver s f).trans (ih (s.deliver f))

/-- A message of a control connection, with all its replies, is calm. -/
theorem calms_onControl (s : Rendezvous) (key : ConnKey) (msg : Bytes) (now : Instant) (v : Verdict) :
    Calms s (s.onControl P key msg now v) := by
  unfold onControl
  cases s.service.onMessage P key msg now v.admitted v.draws with
  | none => exact Calms.refl s
  | some r =>
      have hservice : Calms s { s with service := r.2 } := Calms.of_held rfl rfl rfl rfl rfl rfl rfl rfl
      have hout := hservice.trans (calms_foldl_deliver r.1.out _)
      dsimp only
      split
      · exact hout.trans (Calms.killAt _ _ _)
      · exact hout

theorem calms_readChunk (s : Rendezvous) (c : Conn) (got : Recv) (now : Instant) :
    Calms s (s.readChunk c got now) := by
  unfold readChunk
  cases got with
  | none => exact Calms.killAt s _ _
  | some bytes =>
      dsimp only
      split
      · exact Calms.refl s
      · have hfed : Calms s (s.modify .loop c.key fun d =>
            { d with received := d.received ++ bytes.take kReadChunk, lastRx := now
                     reader := (c.reader.feed (bytes.take kReadChunk)).2 }) :=
          Calms.modify_data fun _ => ⟨rfl, rfl, id, rfl, rfl, rfl, rfl⟩
        split
        · exact hfed
        · exact hfed.trans (Calms.killAt _ _ _)

theorem calms_readEarly (s : Rendezvous) (c : Conn) (got : Recv) : Calms s (s.readEarly c got) := by
  unfold readEarly
  cases got with
  | none => exact Calms.killAt s _ _
  | some bytes =>
      have hgot : Calms s (s.modify .loop c.key fun d =>
          { d with received := d.received ++
              bytes.take (min (s.cfg.spliceBuffer - c.relayEarly.length) (kReadChunk - 1) + 1) }) :=
        Calms.modify_data fun _ => ⟨rfl, rfl, id, rfl, rfl, rfl, rfl⟩
      dsimp only
      split
      · exact hgot.trans (Calms.killAt _ _ _)
      · exact hgot.trans (Calms.modify_data fun _ => ⟨rfl, rfl, id, rfl, rfl, rfl, rfl⟩)

theorem calms_drain (s : Rendezvous) (p : Place) (c : Conn) (got : Recv) :
    Calms s (s.drain p c got) := by
  have hkill : ∀ {t : Rendezvous}, Calms s t →
      Calms s (if c.out.isEmpty then t.killAt p c.key else t) := by
    intro t ht
    split
    · exact ht.trans (Calms.killAt t p c.key)
    · exact ht
  unfold drain
  cases got with
  | none => exact hkill (Calms.modify_data fun _ => ⟨rfl, rfl, id, rfl, rfl, rfl, rfl⟩)
  | some bytes => exact hkill (Calms.modify_data fun _ => ⟨rfl, rfl, id, rfl, rfl, rfl, rfl⟩)

theorem calms_spliceRead (s : Rendezvous) (p : Place) (c : Conn) (got : Recv) (now : Instant) :
    Calms s (s.spliceRead p c got now) := by
  unfold spliceRead
  cases s.find p c.partner with
  | none => exact calms_drain s p c got
  | some d =>
      dsimp only
      split
      · exact calms_drain s p c got
      split
      · exact Calms.refl s
      cases got with
      | none => exact Calms.killAt s _ _
      | some bytes =>
          dsimp only
          split
          · exact Calms.refl s
          have hgot : Calms s (s.modify p c.key fun x => { x with
              received := x.received ++
                bytes.take (min (s.cfg.spliceBuffer - d.out.length) kReadChunk)
              lastRx := now }) :=
            Calms.modify_data fun _ => ⟨rfl, rfl, id, rfl, rfl, rfl, rfl⟩
          have hcharge := hgot.trans (Calms.charge _ c.relayId
            (bytes.take (min (s.cfg.spliceBuffer - d.out.length) kReadChunk)).length now)
          split
          · exact (hcharge.trans (Calms.killAt _ _ _)).trans (Calms.killAt _ _ _)
          · exact hcharge.trans (Calms.modify_data fun _ => ⟨rfl, rfl, id, rfl, rfl, rfl, rfl⟩)

/-- A read by the loop is calm in each mode. -/
theorem calms_readFrom (s : Rendezvous) (key : ConnKey) (got : Recv) (now : Instant) :
    Calms s (s.readFrom key got now) := by
  unfold readFrom
  cases s.find .loop key with
  | none => exact Calms.refl s
  | some c =>
      dsimp only
      split
      · exact Calms.refl s
      cases c.mode with
      | splice => exact calms_spliceRead s .loop c got now
      | relayWaiting => exact calms_readEarly s c got
      | new => exact calms_readChunk s c got now
      | control => exact calms_readChunk s c got now

theorem calms_workerRead (s : Rendezvous) (i : Nat) (key : ConnKey) (got : Recv) (now : Instant) :
    Calms s (s.workerRead i key got now) := by
  unfold workerRead
  cases s.find (.worker i) key with
  | none => exact Calms.refl s
  | some c =>
      dsimp only
      split
      · exact Calms.refl s
      · exact calms_spliceRead s (.worker i) c got now

/-- A flush is calm, also when the socket fails. -/
theorem calms_flush (p : Place) (key : ConnKey) (sends : List Send) (s : Rendezvous) :
    Calms s (flush p key sends s) := by
  induction sends generalizing s with
  | nil => exact Calms.refl s
  | cons sent sends ih =>
      unfold flush
      cases s.find p key with
      | none => exact Calms.refl s
      | some c =>
          dsimp only
          split
          · exact Calms.refl s
          cases sent with
          | none => exact Calms.killAt s _ _
          | some n =>
              dsimp only
              split
              · exact Calms.refl s
              · refine Calms.trans (Calms.modify_data ?_) (ih _)
                exact fun _ => ⟨rfl, rfl, id, rfl, rfl, rfl, rfl⟩

/-- A deadline marks a connection and does no more. -/
theorem calms_expire (s : Rendezvous) (t : Thread) (key : ConnKey) (now : Instant) :
    Calms s (s.expire t key now) := by
  unfold expire
  cases s.find t.place key with
  | none => exact Calms.refl s
  | some c =>
      dsimp only
      split
      · exact Calms.killAt s _ _
      · exact Calms.refl s

/-- Neither does the end of a partner. -/
theorem calms_follow (s : Rendezvous) (t : Thread) (key : ConnKey) : Calms s (s.follow t key) := by
  unfold follow
  cases s.find t.place key with
  | none => exact Calms.refl s
  | some c =>
      dsimp only
      split
      · exact Calms.refl s
      cases s.find t.place c.partner with
      | none => exact Calms.refl s
      | some q =>
          dsimp only
          split
          · exact Calms.killAt s _ _
          · exact Calms.refl s

/-! ## The invariant

Pairs are mutual and held together, legs that wait are filed where they wait,
and no two connections have one key. -/

/-- The connection `a`, while it is held, is a leg with the partner `b`. -/
def Mate (held : List Held) (a b : ConnKey) : Prop :=
  ∀ x ∈ held, x.conn.key = a → x.conn.mode = .splice ∧ x.conn.partner = b

/-- Two connections that are each other's partners. -/
structure Mates (held : List Held) (nextKey a b : ConnKey) : Prop where
  left : Mate held a b
  right : Mate held b a
  old : a < nextKey ∧ b < nextKey

/-- Two legs of one relay. -/
structure Opposite (x y : Held) : Prop where
  place : y.place = x.place
  mode : y.conn.mode = .splice
  partner : y.conn.partner = x.conn.key
  relay : y.conn.relayId = x.conn.relayId
  sides : ∃ side, x.conn.relaySide = some side ∧ y.conn.relaySide = some (1 - side)

/-- What holds of the connections between any two actions. -/
structure Inv (s : Rendezvous) : Prop where
  distinct : s.Distinct
  old : ∀ x ∈ s.held, x.conn.key < s.nextKey
  gone : ∀ c ∈ s.closed, c.key < s.nextKey ∧ ∀ x ∈ s.held, x.conn.key ≠ c.key
  once : (s.closed.map Conn.key).Nodup
  moved : ∀ x ∈ s.held, x.place ≠ .loop → x.conn.mode = .splice
  named : ∀ side id key, (s.waiting side).lookup id = some key → ∃ x ∈ s.held, x.place = .loop ∧
    x.conn.key = key ∧ x.conn.mode = .relayWaiting ∧ x.conn.relaySide = some side ∧
    x.conn.relayId = id
  waits : ∀ x ∈ s.held, x.conn.mode = .relayWaiting → x.conn.dead = false →
    ∃ side, x.conn.relaySide = some side ∧
      (s.waiting side).lookup x.conn.relayId = some x.conn.key
  paired : ∀ x ∈ s.held, x.conn.mode = .splice → x.conn.partner < s.nextKey ∧
    ∀ y ∈ s.held, y.conn.key = x.conn.partner → Opposite x y
  ready : ∀ pair ∈ s.spliced, Mates s.held s.nextKey pair.1 pair.2
  passing : ∀ src dst id again, s.doing = .passing src dst id again →
    Mates s.held s.nextKey src dst

/-- The other side of the other side. -/
theorem other_other : ∀ side : Fin 2, 1 - (1 - side) = side := by decide

theorem Mates.symm {held : List Held} {nextKey a b : ConnKey} (h : Mates held nextKey a b) :
    Mates held nextKey b a := ⟨h.right, h.left, h.old.symm⟩

/-- Two legs that name each other are opposite either way round. -/
theorem Opposite.symm {x y : Held} (h : Opposite x y) (hx : x.conn.mode = .splice)
    (hkey : y.conn.key = x.conn.partner) : Opposite y x := by
  obtain ⟨side, hside, hother⟩ := h.sides
  refine ⟨h.place.symm, hx, hkey.symm, h.relay.symm, 1 - side, hother, ?_⟩
  rw [other_other]
  exact hside

section Kin

variable {g : Held → Held}

theorem mem_map_held (hg : s'.held = s.held.map g) {x : Held} (hx : x ∈ s'.held) :
    ∃ y ∈ s.held, g y = x := List.mem_map.mp (hg ▸ hx)

/-- Behind a calm change every connection has one before it that it is kin to. -/
theorem Kins.mem (h : Kins s s') {y : Held} (hy : y ∈ s'.held) : ∃ x ∈ s.held, Kin x y := by
  obtain ⟨g, hg, hkin⟩ := h.held
  obtain ⟨x, hx, rfl⟩ := mem_map_held hg hy
  exact ⟨x, hx, hkin x hx⟩

theorem Kins.mem_of_mem (h : Kins s s') {x : Held} (hx : x ∈ s.held) :
    ∃ y ∈ s'.held, Kin x y := by
  obtain ⟨g, hg, hkin⟩ := h.held
  exact ⟨g x, hg ▸ List.mem_map_of_mem hx, hkin x hx⟩

/-- No key comes or goes. -/
theorem Kins.keys (h : Kins s s') :
    (s'.held.map fun x => x.conn.key) = s.held.map fun x => x.conn.key := by
  obtain ⟨g, hg, hkin⟩ := h.held
  rw [hg, List.map_map]
  exact List.map_congr_left fun x hx => (hkin x hx).key

/-- A pair is a pair still. -/
theorem Mate.kins {a b : ConnKey} (hm : Mate s.held a b) (h : Kins s s') : Mate s'.held a b := by
  intro y hy hkey
  obtain ⟨x, hx, hkin⟩ := h.mem hy
  obtain ⟨hmode, hpartner⟩ := hm x hx (hkin.key ▸ hkey)
  have hraw : x.conn.raw = true := by simp [Conn.raw, hmode]
  exact ⟨hkin.splice_iff.mpr hmode, (hkin.relay hraw).2.2.trans hpartner⟩

theorem Mates.kins {a b : ConnKey} (hm : Mates s.held s.nextKey a b) (h : Kins s s') :
    Mates s'.held s'.nextKey a b :=
  ⟨hm.left.kins h, hm.right.kins h, h.nextKey ▸ hm.old⟩

theorem Opposite.kin {x x' y y' : Held} (h : Opposite x y) (hx : x.conn.mode = .splice)
    (hkin : Kin x x') (hkin' : Kin y y') : Opposite x' y' := by
  have hrawx : x.conn.raw = true := by simp [Conn.raw, hx]
  have hrawy : y.conn.raw = true := by simp [Conn.raw, h.mode]
  obtain ⟨hid, hside, hpartner⟩ := hkin.relay hrawx
  obtain ⟨hid', hside', hpartner'⟩ := hkin'.relay hrawy
  refine ⟨?_, hkin'.splice_iff.mpr h.mode, ?_, ?_, ?_⟩
  · rw [hkin'.place, hkin.place, h.place]
  · rw [hpartner', h.partner, hkin.key]
  · rw [hid', hid, h.relay]
  · rw [hside, hside']
    exact h.sides

/-- Kin changes keep the invariant. -/
theorem Inv.kins (hi : s.Inv) (h : Kins s s') : s'.Inv where
  distinct := by
    rw [Distinct, h.keys]
    exact hi.distinct
  old := by
    intro y hy
    obtain ⟨x, hx, hkin⟩ := h.mem hy
    rw [hkin.key, h.nextKey]
    exact hi.old x hx
  gone := by
    intro c hc
    rw [h.closed] at hc
    obtain ⟨hold, hother⟩ := hi.gone c hc
    refine ⟨h.nextKey ▸ hold, fun y hy => ?_⟩
    obtain ⟨x, hx, hkin⟩ := h.mem hy
    rw [hkin.key]
    exact hother x hx
  once := by
    rw [h.closed]
    exact hi.once
  moved := by
    intro y hy hplace
    obtain ⟨x, hx, hkin⟩ := h.mem hy
    exact hkin.splice_iff.mpr (hi.moved x hx (hkin.place ▸ hplace))
  named := by
    intro side id key hname
    rw [h.waiting] at hname
    obtain ⟨x, hx, hplace, hkey, hmode, hside, hid⟩ := hi.named side id key hname
    obtain ⟨y, hy, hkin⟩ := h.mem_of_mem hx
    have hraw : x.conn.raw = true := by simp [Conn.raw, hmode]
    obtain ⟨hid', hside', -⟩ := hkin.relay hraw
    exact ⟨y, hy, hkin.place.trans hplace, hkin.key.trans hkey, hkin.waiting_iff.mpr hmode,
      hside'.trans hside, hid'.trans hid⟩
  waits := by
    intro y hy hmode hlive
    obtain ⟨x, hx, hkin⟩ := h.mem hy
    have hmodex := hkin.waiting_iff.mp hmode
    have hlivex : x.conn.dead = false := by
      cases hdead : x.conn.dead with
      | false => rfl
      | true => rw [← hlive, hkin.dead hdead]
    obtain ⟨side, hside, hname⟩ := hi.waits x hx hmodex hlivex
    have hraw : x.conn.raw = true := by simp [Conn.raw, hmodex]
    obtain ⟨hid', hside', -⟩ := hkin.relay hraw
    refine ⟨side, hside'.trans hside, ?_⟩
    rw [h.waiting, hid', hkin.key]
    exact hname
  paired := by
    intro y hy hmode
    obtain ⟨x, hx, hkin⟩ := h.mem hy
    have hmodex := hkin.splice_iff.mp hmode
    have hraw : x.conn.raw = true := by simp [Conn.raw, hmodex]
    obtain ⟨hold, hpairs⟩ := hi.paired x hx hmodex
    have hpartner := (hkin.relay hraw).2.2
    refine ⟨by rw [hpartner, h.nextKey]; exact hold, fun y' hy' hkey => ?_⟩
    obtain ⟨x', hx', hkin'⟩ := h.mem hy'
    rw [hpartner, hkin'.key] at hkey
    exact (hpairs x' hx' hkey).kin hmodex hkin hkin'
  ready := by
    intro pair hpair
    rw [h.spliced] at hpair
    exact (hi.ready pair hpair).kins h
  passing := by
    intro src dst id again hd
    rw [h.doing] at hd
    exact (hi.passing src dst id again hd).kins h

theorem Inv.calms (hi : s.Inv) (h : Calms s s') : s'.Inv := hi.kins h.toKins

/-- And both its legs are held together still. -/
theorem Mates.calms {a b : ConnKey} (hm : Mates s.held s.nextKey a b) (h : Calms s s') :
    Mates s'.held s'.nextKey a b := hm.kins h.toKins

end Kin

end UConnect.Server.Rendezvous
