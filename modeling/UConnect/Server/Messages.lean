/-
  Server/Messages.lean --- from the bytes of a control connection to the
  messages of the service.

  A connection's bytes arrive in any pieces, the frames are taken from them one
  at a time and the first of them is kept while the service is told of the
  connection.  Between these steps the other threads do what they like.  Shown
  here is that the service hears the frames of every control connection, whole
  and in order, and nothing else (`service_hears_frames`): what it has heard of
  a connection, with the frame the loop still holds, is the front of the bytes
  the socket returned, and the frame reader of a live one holds the rest.

  `given` are the messages an action gives the service; the events of
  Server/Attachment carry the same ones.
-/
import UConnect.Server.Attachment

set_option autoImplicit false

namespace UConnect.Server.Rendezvous

open UConnect UConnect.Foundation UConnect.Crypto UConnect.Wire

variable {P : Primitives} {s s' s'' : Rendezvous} {p : Place} {key : ConnKey} {c d : Conn}
  {ms : List Bytes} {heard : List (ConnKey × Bytes)}

/-! ## What is heard

The messages the service was given of one connection, the one the loop holds,
and the bytes. -/

/-- The messages of one connection. -/
def saidBy (key : ConnKey) (heard : List (ConnKey × Bytes)) : List Bytes :=
  (heard.filter fun x => x.1 = key).map Prod.snd

/-- The message the loop holds of a connection while the service is told of it. -/
def Doing.keeps (key : ConnKey) : Doing → List Bytes
  | .opened k msg => if key = k then [msg] else []
  | .nothing => []
  | .passing _ _ _ _ => []

/-- The reader of the connection has taken the front of what the socket returned
and has given out these frames of it.  Only the reader of a live connection need
have taken everything: one that is broken refuses a chunk, and the connection
that read it is killed. -/
structure Conn.Carries (ms : List Bytes) (c : Conn) : Prop where
  reads : ∃ taken, FrameReader.Reading kMaxFrame ms taken c.reader ∧ taken <+: c.received ∧
    (c.dead = false → taken = c.received)

/-- The frames a connection carries are within the limit of the reader. -/
theorem Conn.Carries.carried (h : c.Carries ms) : Carried kMaxFrame ms := by
  obtain ⟨_, hread, -, -⟩ := h.reads
  exact hread.carried

/-- They are at the front of what its socket has returned. -/
theorem Conn.Carries.front (h : c.Carries ms) : stream ms <+: c.received := by
  obtain ⟨taken, hread, hfront, -⟩ := h.reads
  have hgiven : stream ms <+: taken := ⟨c.reader.buf, hread.split.symm⟩
  exact hgiven.trans hfront

/-- The reader of a live connection has taken all there was. -/
theorem Conn.Carries.reading (h : c.Carries ms) (hlive : c.dead = false) :
    FrameReader.Reading kMaxFrame ms c.received c.reader := by
  obtain ⟨taken, hread, -, hall⟩ := h.reads
  exact hall hlive ▸ hread

/-- The service has heard this of the connections. -/
structure Heard (heard : List (ConnKey × Bytes)) (s : Rendezvous) : Prop where
  carries : ∀ c ∈ s.all, c.mode = .control → c.Carries (saidBy c.key heard ++ s.doing.keeps c.key)
  silent : ∀ c ∈ s.all, c.mode ≠ .control → saidBy c.key heard = []
  later : ∀ key, s.nextKey ≤ key → saidBy key heard = []

theorem saidBy_append (key : ConnKey) (xs ys : List (ConnKey × Bytes)) :
    saidBy key (xs ++ ys) = saidBy key xs ++ saidBy key ys := by
  rw [saidBy, List.filter_append, List.map_append]
  rfl

/-- Only a connection that was just opened has a frame kept for it. -/
theorem Doing.keeps_nil {d : Doing} (h : ∀ key msg, d ≠ .opened key msg) (key : ConnKey) :
    d.keeps key = [] := by
  cases d with
  | nothing => rfl
  | opened k msg => exact absurd rfl (h k msg)
  | passing src dst id again => rfl

/-- What the loop has kept is heard next. -/
theorem saidBy_kept (key : ConnKey) (d : Doing) : saidBy key d.kept = d.keeps key := by
  cases d with
  | nothing => rfl
  | passing src dst id again => rfl
  | opened k msg =>
      by_cases hkey : key = k
      · simp [saidBy, Doing.kept, Doing.keeps, hkey]
      · simp [saidBy, Doing.kept, Doing.keeps, hkey, Ne.symm hkey]

theorem saidBy_self (key : ConnKey) (ms : List Bytes) :
    saidBy key (ms.map fun msg => (key, msg)) = ms := by
  induction ms with
  | nil => rfl
  | cons m ms ih => simpa [saidBy] using ih

theorem saidBy_other {k : ConnKey} (h : k ≠ key) (ms : List Bytes) :
    saidBy k (ms.map fun msg => (key, msg)) = [] := by
  simp [saidBy, Ne.symm h]

/-! ## Changes that are not heard

Most changes give nothing and leave what a connection's reader holds in step
with its bytes. -/

/-- A connection changed, and carries what it carried. -/
structure Mute (c d : Conn) : Prop where
  key : d.key = c.key
  control : d.mode = .control ↔ c.mode = .control
  carries : c.mode = .control → ∀ ms, c.Carries ms → d.Carries ms

theorem Mute.refl (c : Conn) : Mute c c := ⟨rfl, Iff.rfl, fun _ _ h => h⟩

/-- Mute changes compose. -/
theorem Mute.trans {e : Conn} (h : Mute c d) (h' : Mute d e) : Mute c e :=
  ⟨h'.key.trans h.key, h'.control.trans h.control,
    fun hc ms hms => h'.carries (h.control.mpr hc) ms (h.carries hc ms hms)⟩

/-- Nothing the reader sees has changed. -/
theorem Mute.same (hkey : d.key = c.key) (hmode : d.mode = c.mode)
    (hreceived : d.received = c.received) (hreader : d.reader = c.reader)
    (hdead : c.dead = true → d.dead = true) : Mute c d := by
  refine ⟨hkey, by rw [hmode], fun _ ms h => ⟨?_⟩⟩
  obtain ⟨taken, hread, hfront, hall⟩ := h.reads
  rw [hreceived, hreader]
  refine ⟨taken, hread, hfront, fun hlive => hall ?_⟩
  cases hc : c.dead with
  | false => rfl
  | true => exact (hdead hc).symm.trans hlive

/-- It was no control connection and is none. -/
theorem Mute.plain (hkey : d.key = c.key) (hc : c.mode ≠ .control) (hd : d.mode ≠ .control) :
    Mute c d :=
  ⟨hkey, iff_of_false hd hc, fun h => absurd h hc⟩

/-- Every connection there is was there and has changed no more than this. -/
structure Mutes (s s' : Rendezvous) : Prop where
  conns : ∀ d ∈ s'.all, ∃ c ∈ s.all, Mute c d
  nextKey : s'.nextKey = s.nextKey

namespace Mutes

theorem of_all (hall : s'.all ⊆ s.all) (hnext : s'.nextKey = s.nextKey) : Mutes s s' :=
  ⟨fun d hd => ⟨d, hall hd, .refl d⟩, hnext⟩

theorem of_held (hheld : s'.held = s.held) (hclosed : s'.closed = s.closed)
    (hnext : s'.nextKey = s.nextKey) : Mutes s s' := by
  refine of_all (fun d hd => ?_) hnext
  rw [all, hheld, hclosed] at hd
  exact hd

theorem refl (s : Rendezvous) : Mutes s s := of_held rfl rfl rfl

theorem trans (h : Mutes s s') (h' : Mutes s' s'') : Mutes s s'' := by
  refine ⟨fun e he => ?_, h'.nextKey.trans h.nextKey⟩
  obtain ⟨d, hd, hde⟩ := h'.conns e he
  obtain ⟨c, hc, hcd⟩ := h.conns d hd
  exact ⟨c, hc, hcd.trans hde⟩

theorem modify {f : Conn → Conn}
    (hf : ∀ x ∈ s.held, x.place = p → x.conn.key = key → Mute x.conn (f x.conn)) :
    Mutes s (s.modify p key f) := by
  refine ⟨fun d hd => ?_, rfl⟩
  rcases mem_all.mp hd with ⟨y, hy, rfl⟩ | hclosed
  · obtain ⟨x, hx, rfl⟩ := mem_modify.mp hy
    refine ⟨x.conn, mem_all_of_held hx, ?_⟩
    split
    · rename_i hat
      exact hf x hx hat.1 hat.2
    · exact .refl x.conn
  · exact ⟨d, mem_all.mpr (.inr hclosed), .refl d⟩

/-- Only what no reader sees is written. -/
theorem modify_data {f : Conn → Conn} (hf : ∀ c, (f c).key = c.key ∧ (f c).mode = c.mode ∧
      (f c).received = c.received ∧ (f c).reader = c.reader ∧ (c.dead = true → (f c).dead = true)) :
    Mutes s (s.modify p key f) := by
  refine modify fun x _ _ _ => ?_
  obtain ⟨hkey, hmode, hreceived, hreader, hdead⟩ := hf x.conn
  exact .same hkey hmode hreceived hreader hdead

/-- The one connection of a key is written. -/
theorem modify_at (hd : s.Distinct) (hc : ⟨p, c⟩ ∈ s.held) {f : Conn → Conn} (hf : Mute c (f c)) :
    Mutes s (s.modify p c.key f) := by
  refine modify fun x hx _ hkey => ?_
  obtain rfl := hd.eq hx hc hkey
  exact hf

theorem killAt (s : Rendezvous) (p : Place) (key : ConnKey) : Mutes s (s.killAt p key) :=
  modify_data fun _ => ⟨rfl, rfl, rfl, rfl, fun _ => rfl⟩

theorem charge (s : Rendezvous) (id : RelayId) (bytes : Nat) (now : Instant) :
    Mutes s (s.charge id bytes now).2 := of_held rfl rfl rfl

end Mutes

/-- What is not heard keeps what was heard, while the loop keeps the same
message. -/
theorem Heard.mutes (h : Heard heard s) (hm : Mutes s s')
    (hkeeps : ∀ key, s'.doing.keeps key = s.doing.keeps key) : Heard heard s' where
  carries d hd hmode := by
    obtain ⟨c, hc, hcd⟩ := hm.conns d hd
    have hcontrol := hcd.control.mp hmode
    rw [hkeeps, hcd.key]
    exact hcd.carries hcontrol _ (h.carries c hc hcontrol)
  silent d hd hmode := by
    obtain ⟨c, hc, hcd⟩ := hm.conns d hd
    rw [hcd.key]
    exact h.silent c hc fun hcontrol => hmode (hcd.control.mpr hcontrol)
  later key hkey := h.later key (hm.nextKey ▸ hkey)

/-! ## What is not heard

Reading puts the same bytes into the reader and into the history; nothing else
touches either. -/

/-- A delivery neither reads nor takes a frame. -/
theorem mutes_deliver (s : Rendezvous) (f : Framed) : Mutes s (s.deliver f) := by
  unfold deliver
  cases s.find .loop f.dst with
  | none => exact .refl s
  | some c =>
      dsimp only
      split
      · exact .refl s
      · split
        · exact .killAt s _ _
        · exact .modify_data fun _ => ⟨rfl, rfl, rfl, rfl, id⟩

theorem mutes_foldl_deliver (fs : List Framed) (s : Rendezvous) : Mutes s (fs.foldl deliver s) := by
  induction fs generalizing s with
  | nil => exact .refl s
  | cons f fs ih => exact (mutes_deliver s f).trans (ih (s.deliver f))

/-- The replies go into output buffers, which nobody hears. -/
theorem mutes_onControl (s : Rendezvous) (key : ConnKey) (msg : Bytes) (now : Instant)
    (v : Verdict) : Mutes s (s.onControl P key msg now v) := by
  unfold onControl
  cases s.service.onMessage P key msg now v.admitted v.draws with
  | none => exact .refl s
  | some r =>
      have hservice : Mutes s { s with service := r.2 } := .of_held rfl rfl rfl
      have hout := hservice.trans (mutes_foldl_deliver r.1.out _)
      dsimp only
      split
      · exact hout.trans (.killAt _ _ _)
      · exact hout

/-- A reader that is fed has the same messages behind it; one that refuses the
chunk ends its connection. -/
theorem Mute.fed {bytes : Bytes} (hlive : c.dead = false) (hkey : d.key = c.key)
    (hmode : d.mode = c.mode) (hreceived : d.received = c.received ++ bytes)
    (hreader : d.reader = (c.reader.feed bytes).2)
    (hrefused : d.dead = false → (c.reader.feed bytes).1 = true) : Mute c d := by
  refine ⟨hkey, by rw [hmode], fun _ ms h => ⟨?_⟩⟩
  have hread := (h.reading hlive).step (.feed bytes)
  rw [FrameReader.returns, List.append_nil] at hread
  rw [hreceived, hreader]
  refine ⟨_, hread, ?_, fun hd => ?_⟩
  · -- a broken reader takes nothing, any other all of it
    unfold FrameReader.takes
    split
    · rw [List.append_nil]
      exact List.prefix_append _ _
    · exact List.prefix_rfl
  · have hgood : c.reader.broken = false := by
      have hfed := hrefused hd
      cases hb : c.reader.broken with
      | false => rfl
      | true => simp [FrameReader.feed, hb] at hfed
    rw [FrameReader.takes, hgood]
    rfl

/-- A read extends the bytes at their end; the frames at their front stay what
they were. -/
theorem mutes_readChunk (hd : s.Distinct) (hc : ⟨.loop, c⟩ ∈ s.held) (hlive : c.dead = false)
    (got : Recv) (now : Instant) : Mutes s (s.readChunk c got now) := by
  unfold readChunk
  cases got with
  | none => exact .killAt s _ _
  | some bytes =>
      dsimp only
      split
      · exact .refl s
      split
      · rename_i hfed
        exact .modify_at hd hc (.fed hlive rfl rfl rfl rfl fun _ => hfed)
      · rw [Rendezvous.killAt, modify_modify]
        · exact .modify_at hd hc (.fed hlive rfl rfl rfl rfl fun hdead => Bool.noConfusion hdead)
        · exact fun _ => rfl

theorem mutes_readEarly (hd : s.Distinct) (hc : ⟨.loop, c⟩ ∈ s.held)
    (hmode : c.mode = .relayWaiting)
    (got : Recv) : Mutes s (s.readEarly c got) := by
  have hplain : c.mode ≠ .control := by rw [hmode]; exact Mode.noConfusion
  unfold readEarly
  cases got with
  | none => exact .killAt s _ _
  | some bytes =>
      dsimp only
      split
      · exact (Mutes.modify_at hd hc (.plain rfl hplain hplain)).trans (.killAt _ _ _)
      · exact (Mutes.modify_at hd hc (.plain rfl hplain hplain)).trans
          (.modify_data fun _ => ⟨rfl, rfl, rfl, rfl, id⟩)

theorem mutes_drain (hd : s.Distinct) (hc : ⟨p, c⟩ ∈ s.held) (hplain : c.mode ≠ .control)
    (got : Recv) : Mutes s (s.drain p c got) := by
  have hkill : ∀ {t : Rendezvous}, Mutes s t →
      Mutes s (if c.out.isEmpty then t.killAt p c.key else t) := by
    intro t ht
    split
    · exact ht.trans (.killAt t p c.key)
    · exact ht
  unfold drain
  cases got with
  | none => exact hkill (.modify_data fun _ => ⟨rfl, rfl, rfl, rfl, id⟩)
  | some bytes => exact hkill (.modify_at hd hc (.plain rfl hplain hplain))

theorem mutes_spliceRead (hd : s.Distinct) (hc : ⟨p, c⟩ ∈ s.held) (hplain : c.mode ≠ .control)
    (got : Recv) (now : Instant) : Mutes s (s.spliceRead p c got now) := by
  unfold spliceRead
  cases s.find p c.partner with
  | none => exact mutes_drain hd hc hplain got
  | some q =>
      dsimp only
      split
      · exact mutes_drain hd hc hplain got
      split
      · exact .refl s
      cases got with
      | none => exact .killAt s _ _
      | some bytes =>
          dsimp only
          split
          · exact .refl s
          have hgot : Mutes s (s.modify p c.key fun x => { x with
              received := x.received ++
                bytes.take (min (s.cfg.spliceBuffer - q.out.length) kReadChunk)
              lastRx := now }) := .modify_at hd hc (.plain rfl hplain hplain)
          have hcharge := hgot.trans (.charge _ c.relayId
            (bytes.take (min (s.cfg.spliceBuffer - q.out.length) kReadChunk)).length now)
          split
          · exact (hcharge.trans (.killAt _ _ _)).trans (.killAt _ _ _)
          · exact hcharge.trans (.modify_data fun _ => ⟨rfl, rfl, rfl, rfl, id⟩)

theorem mutes_readFrom (hi : s.Inv) (key : ConnKey) (got : Recv) (now : Instant) :
    Mutes s (s.readFrom key got now) := by
  unfold readFrom
  cases hfind : s.find .loop key with
  | none => exact .refl s
  | some c =>
      obtain ⟨hc, -⟩ := mem_of_find hfind
      dsimp only
      split
      · exact .refl s
      rename_i hlive
      have halive : c.dead = false := by simpa using hlive
      cases hmode : c.mode with
      | splice =>
          have hplain : c.mode ≠ .control := by rw [hmode]; exact Mode.noConfusion
          exact mutes_spliceRead hi.distinct hc hplain got now
      | relayWaiting => exact mutes_readEarly hi.distinct hc hmode got
      | new => exact mutes_readChunk hi.distinct hc halive got now
      | control => exact mutes_readChunk hi.distinct hc halive got now

theorem mutes_workerRead (hi : s.Inv) (i : Nat) (key : ConnKey) (got : Recv) (now : Instant) :
    Mutes s (s.workerRead i key got now) := by
  unfold workerRead
  cases hfind : s.find (.worker i) key with
  | none => exact .refl s
  | some c =>
      obtain ⟨hc, -⟩ := mem_of_find hfind
      dsimp only
      split
      · exact .refl s
      · -- a worker holds legs only
        have hleg : c.mode = .splice := hi.moved _ hc Place.noConfusion
        exact mutes_spliceRead hi.distinct hc (by rw [hleg]; exact Mode.noConfusion) got now

theorem mutes_flush (p : Place) (key : ConnKey) (sends : List Send) (s : Rendezvous) :
    Mutes s (flush p key sends s) := by
  induction sends generalizing s with
  | nil => exact .refl s
  | cons sent sends ih =>
      unfold flush
      cases s.find p key with
      | none => exact .refl s
      | some c =>
          dsimp only
          split
          · exact .refl s
          cases sent with
          | none => exact .killAt s _ _
          | some n =>
              dsimp only
              split
              · exact .refl s
              · refine Mutes.trans (Mutes.modify_data ?_) (ih _)
                exact fun _ => ⟨rfl, rfl, rfl, rfl, id⟩

theorem mutes_expire (s : Rendezvous) (t : Thread) (key : ConnKey) (now : Instant) :
    Mutes s (s.expire t key now) := by
  unfold expire
  cases s.find t.place key with
  | none => exact .refl s
  | some c =>
      dsimp only
      split
      · exact .killAt s _ _
      · exact .refl s

theorem mutes_follow (s : Rendezvous) (t : Thread) (key : ConnKey) : Mutes s (s.follow t key) := by
  unfold follow
  cases s.find t.place key with
  | none => exact .refl s
  | some c =>
      dsimp only
      split
      · exact .refl s
      cases s.find t.place c.partner with
      | none => exact .refl s
      | some q =>
          dsimp only
          split
          · exact .killAt s _ _
          · exact .refl s

/-! ## Joining a relay

A leg's frame never reaches the service, and what follows it is not framed. -/

/-- A connection that is no control connection is written, and does not become
one. -/
theorem Mutes.modify_plain {f : Conn → Conn}
    (hbefore : ∀ x ∈ s.held, x.place = p → x.conn.key = key → x.conn.mode ≠ .control)
    (hafter : ∀ d, (f d).key = d.key ∧ (f d).mode ≠ .control) : Mutes s (s.modify p key f) :=
  .modify fun x hx hplace hkey =>
    .plain (hafter x.conn).1 (hbefore x hx hplace hkey) (hafter x.conn).2

theorem mutes_replaceEarlier (s : Rendezvous) (side : Fin 2) (id : RelayId) :
    Mutes s (s.replaceEarlier side id) := by
  unfold replaceEarlier
  cases (s.waiting side).lookup id with
  | none => exact .refl s
  | some old => exact (Mutes.killAt s .loop old).trans (.of_held rfl rfl rfl)

theorem mutes_wait (hplain : ∀ x ∈ s.held, x.conn.key = key → x.conn.mode ≠ .control)
    (side : Fin 2) (id : RelayId) : Mutes s (s.wait key side id) := by
  have hmodify : Mutes s (s.modify .loop key Conn.toWaiting) :=
    .modify_plain (fun x hx _ => hplain x hx) fun _ => ⟨rfl, Mode.noConfusion⟩
  exact hmodify.trans (.of_held rfl rfl rfl)

theorem mutes_splice {other : ConnKey}
    (hplain : ∀ x ∈ s.held, x.conn.key = key → x.conn.mode ≠ .control)
    (hother : ∀ x ∈ s.held, x.conn.key = other → x.conn.mode ≠ .control) (id : RelayId) :
    Mutes s (s.splice key other id) := by
  have hfirst : Mutes s (s.modify .loop key fun d => d.toSplice other) :=
    .modify_plain (fun x hx _ => hplain x hx) fun _ => ⟨rfl, Mode.noConfusion⟩
  have hkeeps : ∀ x ∈ (s.modify .loop key fun d => d.toSplice other).held, x.place = .loop →
      x.conn.key = other → x.conn.mode ≠ .control := by
    intro x hx _ hkey
    obtain ⟨y, hy, rfl⟩ := mem_modify.mp hx
    split
    · exact Mode.noConfusion
    · rename_i hat
      rw [if_neg hat] at hkey
      exact hother y hy hkey
  have hsecond : Mutes (s.modify .loop key fun d => d.toSplice other)
      ((s.modify .loop key fun d => d.toSplice other).modify .loop other fun p => p.toSplice key) :=
    .modify_plain hkeeps fun _ => ⟨rfl, Mode.noConfusion⟩
  exact (hfirst.trans hsecond).trans (.of_held rfl rfl rfl)

/-- Two legs that are spliced carry no frames any more. -/
theorem mutes_pair (hi : s.Inv) (hplain : ∀ x ∈ s.held, x.conn.key = key → x.conn.mode ≠ .control)
    (side : Fin 2) (id : RelayId) : Mutes s (s.pair key side id) := by
  unfold pair
  cases hname : (s.waiting (1 - side)).lookup id with
  | none => exact mutes_wait hplain side id
  | some other =>
      have hunwait : Mutes s (s.unwait (1 - side) id) := .of_held rfl rfl rfl
      have hwaits : ∀ x ∈ s.held, x.conn.key = other → x.conn.mode ≠ .control := by
        intro x hx hkey hcontrol
        cases hcontrol.symm.trans (hi.named_eq hname hx hkey).2.1
      have hwait : Mutes s ((s.unwait (1 - side) id).wait key side id) :=
        hunwait.trans (mutes_wait (s := s.unwait (1 - side) id) hplain side id)
      dsimp only
      cases (s.unwait (1 - side) id).find .loop other with
      | none => exact hwait
      | some d =>
          dsimp only
          split
          · exact hwait
          · exact hunwait.trans (mutes_splice (s := s.unwait (1 - side) id) hplain hwaits id)

/-- A leg that joins is not heard. -/
theorem mutes_onRelayJoin (hi : s.Inv) (hc : ⟨.loop, c⟩ ∈ s.held) (hnew : c.mode = .new)
    (msg : Bytes) : Mutes s (s.onRelayJoin c msg) := by
  have hplain : c.mode ≠ .control := by rw [hnew]; exact Mode.noConfusion
  unfold onRelayJoin
  cases s.joinSide msg with
  | none => exact .killAt s _ _
  | some joined =>
      obtain ⟨relay, side⟩ := joined
      dsimp only
      generalize c.reader.takeRest.1 = early
      have hraw : Mutes s (s.modify .loop c.key fun d => d.toRaw early msg) :=
        .modify_at hi.distinct hc (.plain rfl hplain hplain)
      have hcalm : Calms s (s.modify .loop c.key fun d => d.toRaw early msg) :=
        Calms.modify_data fun _ => ⟨rfl, rfl, id, rfl, rfl, rfl, rfl⟩
      split
      · exact hraw.trans (.killAt _ _ _)
      · have hmem : ⟨.loop, c.toRaw early msg⟩ ∈
            (s.modify .loop c.key fun d => d.toRaw early msg).held := mem_modify_self hc
        have hside := calms_takeSide (hi.calms hcalm).distinct hmem hnew relay side
        have hmem' := mem_modify_self (f := fun d => d.takeSide relay side) hmem
        obtain ⟨hinv, -, hkept⟩ := (hi.calms (hcalm.trans hside)).replaceEarlier side relay
        have hplain : ∀ x ∈ (((s.modify .loop c.key fun d => d.toRaw early msg).modify .loop c.key
            fun d => d.takeSide relay side).replaceEarlier side relay).held,
            x.conn.key = c.key → x.conn.mode ≠ .control := by
          intro x hx hkey hcontrol
          obtain rfl := hinv.distinct.eq hx (hkept _ hmem' hnew) hkey
          cases hcontrol.symm.trans hnew
        have htaken : Mutes (s.modify .loop c.key fun d => d.toRaw early msg)
            ((s.modify .loop c.key fun d => d.toRaw early msg).modify .loop c.key
              fun d => d.takeSide relay side) := .modify_data fun _ => ⟨rfl, rfl, rfl, rfl, id⟩
        exact ((hraw.trans htaken).trans (mutes_replaceEarlier _ side relay)).trans
          (mutes_pair hinv hplain side relay)

theorem mutes_passed (s : Rendezvous) (src dst : ConnKey) (id : RelayId) (again : Bool) :
    Mutes s (s.passed src dst id again) := by
  unfold passed
  split
  · exact .of_held rfl rfl rfl
  · exact .of_held rfl rfl rfl

theorem mutes_passEarly (s : Rendezvous) (src dst : ConnKey) (id : RelayId) (again : Bool)
    (now : Instant) : Mutes s (s.passEarly src dst id again now) := by
  unfold passEarly
  cases s.find .loop src with
  | none => exact .of_held rfl rfl rfl
  | some c =>
      have htaken : Mutes s (s.modify .loop src fun d => { d with relayEarly := [] }) :=
        .modify_data fun _ => ⟨rfl, rfl, rfl, rfl, fun h => h⟩
      have hcharged := htaken.trans (.charge _ id c.relayEarly.length now)
      dsimp only
      split
      · exact htaken.trans (mutes_passed _ src dst id again)
      · split
        · have hwritten : ∀ t : Rendezvous, Mutes t
              (t.modify .loop dst fun d => { d with out := d.out ++ c.relayEarly }) :=
            fun t => .modify_data fun _ => ⟨rfl, rfl, rfl, rfl, fun h => h⟩
          exact (hcharged.trans (hwritten _)).trans (mutes_passed _ src dst id again)
        · exact ((hcharged.trans (.killAt _ .loop src)).trans (.killAt _ .loop dst)).trans
            (.of_held rfl rfl rfl)

/-! ## Frames

Taking a frame moves it from the reader to the loop. -/

/-- Taking a frame off a live connection's reader takes it off the front of what
is still unheard. -/
theorem Conn.Carries.next (h : c.Carries ms) (hlive : c.dead = false) :
    { c with reader := c.reader.next.2 }.Carries (ms ++ c.reader.next.1.toList) := by
  have hread := (h.reading hlive).step .next
  have htakes : c.reader.takes .next = [] := by
    unfold FrameReader.takes
    split <;> rfl
  rw [htakes, List.append_nil] at hread
  exact ⟨⟨_, hread, List.prefix_rfl, fun _ => rfl⟩⟩

/-- One connection of the loop changes, and what is heard of no other does. -/
theorem Heard.change (h : Heard heard s) (hi : s.Inv) (hc : ⟨.loop, c⟩ ∈ s.held) {f : Conn → Conn}
    (hkey : (f c).key = c.key) {heard' : List (ConnKey × Bytes)}
    (hheld : s'.held = (s.modify .loop c.key f).held)
    (hclosed : s'.closed = s.closed) (hnext : s'.nextKey = s.nextKey)
    (hother : ∀ k, k ≠ c.key → saidBy k heard' = saidBy k heard ∧
      s'.doing.keeps k = s.doing.keeps k)
    (hcarries : (f c).mode = .control →
      (f c).Carries (saidBy c.key heard' ++ s'.doing.keeps c.key))
    (hsilent : (f c).mode ≠ .control → saidBy c.key heard' = []) : Heard heard' s' := by
  have hcases : ∀ d ∈ s'.all, d = f c ∨ d ∈ s.all ∧ d.key ≠ c.key := by
    intro d hd
    rw [all, hheld, hclosed] at hd
    rcases List.mem_append.mp hd with hmem | hgone
    · obtain ⟨x, hx, rfl⟩ := List.mem_map.mp hmem
      rcases mem_modify_cases hi.distinct hc hx with rfl | ⟨hold, hne⟩
      · exact .inl rfl
      · exact .inr ⟨mem_all_of_held hold, hne⟩
    · exact .inr ⟨mem_all.mpr (.inr hgone), fun hsame => (hi.gone d hgone).2 _ hc hsame.symm⟩
  refine ⟨fun d hd hmode => ?_, fun d hd hmode => ?_, fun k hk => ?_⟩
  · rcases hcases d hd with rfl | ⟨hold, hne⟩
    · rw [hkey]
      exact hcarries hmode
    · obtain ⟨hsaid, hkeeps⟩ := hother d.key hne
      rw [hsaid, hkeeps]
      exact h.carries d hold hmode
  · rcases hcases d hd with rfl | ⟨hold, hne⟩
    · rw [hkey]
      exact hsilent hmode
    · rw [(hother d.key hne).1]
      exact h.silent d hold hmode
  · have hlt := hi.old _ hc
    rw [hnext] at hk
    have hne : k ≠ c.key := by
      rintro rfl
      exact absurd hlt (Nat.not_lt.mpr hk)
    rw [(hother k hne).1]
    exact h.later k hk

/-- A frame that a control connection sends is heard at once. -/
theorem Heard.frame (h : Heard heard s) (hi : s.Inv) (hc : ⟨.loop, c⟩ ∈ s.held)
    (hlive : c.dead = false) (hmode : c.mode = .control) (hidle : s.doing = .nothing) :
    Heard (heard ++ c.reader.next.1.toList.map fun msg => (c.key, msg))
      (s.modify .loop c.key fun d => { d with reader := c.reader.next.2 }) := by
  refine h.change hi hc rfl rfl rfl rfl (fun k hne => ⟨?_, rfl⟩) (fun _ => ?_)
    fun hplain => absurd hmode hplain
  · rw [saidBy_append, saidBy_other hne, List.append_nil]
  · have hcarries := h.carries c (mem_all_of_held hc) hmode
    rw [hidle] at hcarries
    show Conn.Carries (_ ++ s.doing.keeps c.key) { c with reader := c.reader.next.2 }
    rw [saidBy_append, saidBy_self, hidle]
    have hempty : Doing.nothing.keeps c.key = [] := rfl
    rw [hempty, List.append_nil] at hcarries ⊢
    exact hcarries.next hlive

/-- The first frame of a connection is kept until the service knows of it. -/
theorem Heard.opens (h : Heard heard s) (hw : s.Wired) (hc : ⟨.loop, c⟩ ∈ s.held)
    (hlive : c.dead = false) (hnew : c.mode = .new) (hidle : s.doing = .nothing) {msg : Bytes}
    (hmsg : c.reader.next.1 = some msg) :
    Heard heard ((s.modify .loop c.key fun d => { d with reader := c.reader.next.2 }).openControl
      { c with reader := c.reader.next.2 } msg) := by
  have hplain : c.mode ≠ .control := by rw [hnew]; exact Mode.noConfusion
  have hsilent := h.silent c (mem_all_of_held hc) hplain
  have hheld : ((s.modify .loop c.key fun d => { d with reader := c.reader.next.2 }).openControl
        { c with reader := c.reader.next.2 } msg).held =
      (s.modify .loop c.key
        ((fun d : Conn => { d with mode := .control }) ∘
          fun d => { d with reader := c.reader.next.2 })).held := by
    rw [← modify_modify]
    · rfl
    · exact fun _ => rfl
  refine h.change hw.inv hc rfl hheld rfl rfl (fun k hne => ⟨rfl, ?_⟩) (fun _ => ?_)
    fun hother => absurd rfl hother
  · rw [hidle]
    exact if_neg hne
  · have hready := hw.ready c (mem_all_of_held hc)
    simp only [Conn.Ready, hnew] at hready
    have hcarries : c.Carries [] := ⟨⟨_, hready.2.2 hlive, List.prefix_rfl, fun _ => rfl⟩⟩
    have hnext := hcarries.next hlive
    rw [hmsg] at hnext
    have hkeeps : (Doing.opened c.key msg).keeps c.key = [msg] := if_pos rfl
    show Conn.Carries (saidBy c.key heard ++ (Doing.opened c.key msg).keeps c.key)
      { c with reader := c.reader.next.2, mode := .control }
    rw [hsilent, hkeeps]
    exact ⟨hnext.reads⟩

/-- The frame a turn takes is the next one of its connection, in order. -/
theorem Heard.takeFrame (h : Heard heard s) (hw : s.Wired) (hidle : s.doing = .nothing)
    (key : ConnKey) (now : Instant) (v : Verdict) :
    Heard (heard ++ s.frameGiven key) (s.takeFrame P key now v) := by
  unfold Rendezvous.takeFrame
  cases hfind : s.find .loop key with
  | none =>
      rw [frameGiven, hfind, List.append_nil]
      exact h
  | some c =>
      obtain ⟨hc, rfl⟩ := mem_of_find hfind
      dsimp only
      split
      · rename_i hdeaf
        rw [frameGiven_deaf hfind hdeaf, List.append_nil]
        exact h
      · rename_i hready
        have hlive : c.dead = false := by
          by_contra hdead
          exact hready (by simp [hdead])
        by_cases hcontrol : c.mode = .control
        · have hframe := h.frame hw.inv hc hlive hcontrol hidle
          rw [frameGiven_control hfind hlive hcontrol]
          cases hnext : c.reader.next.1 with
          | none =>
              rw [hnext] at hframe
              dsimp only
              split
              · exact hframe.mutes (.killAt _ _ _) fun _ => rfl
              · exact hframe
          | some msg =>
              rw [hnext] at hframe
              dsimp only
              unfold onFrame
              dsimp only
              rw [hcontrol]
              have hcalms := calms_onControl (P := P)
                (s.modify .loop c.key fun d => { d with reader := c.reader.next.2 }) c.key msg now v
              exact hframe.mutes (mutes_onControl _ c.key msg now v) fun k => by rw [hcalms.doing]
        · have hreader : Mutes s (s.modify .loop c.key fun d =>
              { d with reader := c.reader.next.2 }) :=
            .modify_at hw.inv.distinct hc (.plain rfl hcontrol hcontrol)
          rw [frameGiven_plain hfind hcontrol, List.append_nil]
          cases hnext : c.reader.next.1 with
          | none =>
              dsimp only
              split
              · exact h.mutes (hreader.trans (.killAt _ _ _)) fun _ => rfl
              · exact h.mutes hreader fun _ => rfl
          | some msg =>
              dsimp only
              unfold onFrame
              cases hmode : c.mode with
              | new =>
                  dsimp only
                  split
                  · have hmem := mem_modify_self
                      (f := fun d => { d with reader := c.reader.next.2 }) hc
                    have hcalm : Calms s (s.modify .loop c.key fun d =>
                        { d with reader := c.reader.next.2 }) :=
                      Calms.modify_data fun _ => ⟨rfl, rfl, id, rfl, rfl, rfl, rfl⟩
                    obtain ⟨hattached, -⟩ :=
                      Turn.onRelayJoin (hw.inv.calms hcalm) hmem hmode msg
                    refine h.mutes (hreader.trans
                      (mutes_onRelayJoin (hw.inv.calms hcalm) hmem hmode msg)) fun k => ?_
                    rw [hidle, Doing.keeps_nil]
                    · rfl
                    · intro k' msg' hopened
                      cases hidle.symm.trans (hattached.opened k' msg' hopened)
                  · exact h.opens hw hc hlive hmode hidle hnext
              | control => exact absurd hmode hcontrol
              | relayWaiting => exact h.mutes hreader fun _ => rfl
              | splice => exact h.mutes hreader fun _ => rfl

/-! ## What is left to do

Giving it to the service moves it from the loop to what was heard. -/

theorem doing_passed (s : Rendezvous) (src dst : ConnKey) (id : RelayId) (again : Bool) :
    ∀ key msg, (s.passed src dst id again).doing ≠ .opened key msg := by
  intro key msg
  unfold passed
  split
  · exact Doing.noConfusion
  · exact Doing.noConfusion

theorem doing_passEarly (s : Rendezvous) (src dst : ConnKey) (id : RelayId) (again : Bool)
    (now : Instant) : ∀ key msg, (s.passEarly src dst id again now).doing ≠ .opened key msg := by
  intro key msg
  unfold passEarly
  cases s.find .loop src with
  | none => exact Doing.noConfusion
  | some c =>
      dsimp only
      split
      · exact doing_passed _ src dst id again key msg
      · split
        · exact doing_passed _ src dst id again key msg
        · exact Doing.noConfusion

/-- What was kept is heard. -/
theorem Heard.goOn (h : Heard heard s) (hi : s.Inv)
    (hopened : ∀ key msg, s.doing = .opened key msg → ∃ peer, s.Attends key peer)
    (now : Instant) (v : Verdict) :
    Heard (heard ++ s.doing.kept) (s.goOn P now v) := by
  unfold Rendezvous.goOn
  cases hd : s.doing with
  | nothing => simpa [Doing.kept] using h
  | passing src dst id again =>
      have hkept : heard ++ (Doing.passing src dst id again).kept = heard := List.append_nil _
      rw [hkept]
      refine h.mutes (mutes_passEarly s src dst id again now) fun k => ?_
      rw [hd, Doing.keeps_nil (doing_passEarly s src dst id again now)]
      rfl
  | opened key msg =>
      obtain ⟨peer, c, hc, hkey, -, hmode⟩ := hopened key msg hd
      have hnothing : Heard (heard ++ (Doing.opened key msg).kept)
          { s with doing := .nothing } := by
        have hsaid : ∀ k, saidBy k (heard ++ (Doing.opened key msg).kept) =
            saidBy k heard ++ s.doing.keeps k := by
          intro k
          rw [saidBy_append, saidBy_kept, hd]
        have hother : ∀ k, k ≠ key → saidBy k (heard ++ (Doing.opened key msg).kept) =
            saidBy k heard := by
          intro k hne
          rw [hsaid, hd]
          exact (congrArg _ (if_neg hne)).trans (List.append_nil _)
        refine ⟨fun x hx hxmode => ?_, fun x hx hxmode => ?_, fun k hk => ?_⟩
        · rw [hsaid]
          exact (List.append_nil (saidBy x.key heard ++ s.doing.keeps x.key)).symm ▸
            h.carries x hx hxmode
        · rw [hother]
          · exact h.silent x hx hxmode
          · -- the connection of the message is a control connection
            rintro rfl
            rcases mem_all.mp hx with ⟨y, hy, rfl⟩ | hgone
            · rw [hi.distinct.eq hy hc hkey.symm] at hxmode
              exact hxmode hmode
            · exact (hi.gone x hgone).2 _ hc hkey
        · rw [hother]
          · exact h.later k hk
          · rintro rfl
            exact absurd (hkey ▸ hi.old _ hc) (Nat.not_lt.mpr hk)
      have hcalms := calms_onControl (P := P) { s with doing := .nothing } key msg now v
      exact hnothing.mutes (mutes_onControl _ key msg now v) fun k => by rw [hcalms.doing]

/-! ## Coming and going

A new connection has said nothing, and a closed one keeps what it said. -/

/-- A new connection is unheard, and its bytes are none. -/
theorem Heard.accept (h : Heard heard s) (peer : Option Address) (now : Instant) :
    Heard heard (s.accept peer now) := by
  unfold Rendezvous.accept
  cases peer with
  | none => exact h
  | some peer =>
      dsimp only
      split
      · split
        · exact h.mutes (.of_held rfl rfl rfl) fun _ => rfl
        · exact h
      · have hall : ∀ x : Conn, x ∈
            { key := s.nextKey, peer := peer, opened := now, lastRx := now } :: s.all →
            x.mode = .control → x ∈ s.all := by
          intro x hx hmode
          rcases List.mem_cons.mp hx with rfl | hold
          · cases hmode
          · exact hold
        refine ⟨fun x hx hmode => h.carries x (hall x hx hmode) hmode, fun x hx hmode => ?_,
          fun k hk => h.later k (Nat.le_of_succ_le hk)⟩
        rcases List.mem_cons.mp hx with rfl | hold
        · exact h.later s.nextKey (Nat.le_refl _)
        · exact h.silent x hold hmode

/-- A connection that is closed keeps what it has said. -/
theorem mutes_close (s : Rendezvous) (t : Thread) (key : ConnKey) :
    Mutes s (s.close t key) ∧ (s.close t key).doing = s.doing := by
  unfold Rendezvous.close
  cases hfind : s.find t.place key with
  | none => exact ⟨.refl s, rfl⟩
  | some c =>
      obtain ⟨hc, rfl⟩ := mem_of_find hfind
      dsimp only
      split
      · exact ⟨.refl s, rfl⟩
      have hleaves : Leaves s (if t = .loop then s.forget c else s) := by
        split
        · exact leaves_forget s c
        · exact ⟨rfl, rfl, rfl, rfl, rfl⟩
      generalize (if t = .loop then s.forget c else s) = s₁ at hleaves
      obtain ⟨hthen, -⟩ := leaves_release s₁ c.ip
      have hheld : (s₁.release c.ip).held = s.held := hthen.held.trans hleaves.held
      have hclosed : (s₁.release c.ip).closed = s.closed := hthen.closed.trans hleaves.closed
      refine ⟨.of_all (fun x hx => ?_) (hthen.nextKey.trans hleaves.nextKey),
        hthen.doing.trans hleaves.doing⟩
      rcases mem_all.mp hx with ⟨y, hy, rfl⟩ | hgone
      · exact mem_all_of_held (hheld ▸ List.mem_of_mem_eraseP hy)
      · rcases List.mem_cons.mp hgone with rfl | hold
        · exact mem_all_of_held hc
        · exact mem_all.mpr (.inr (hclosed ▸ hold))

theorem Moves.mutes (h : Moves s s') : Mutes s s' := by
  refine .of_all (fun x hx => ?_) h.edits.nextKey
  obtain ⟨y, hy, rfl⟩ := h.edits.mem (fun _ => rfl) hx
  exact hy

/-! ## Runs

For every connection at once, along any actions. -/

/-- One action, with what it gives the service. -/
theorem Heard.act (h : Heard heard s) (hw : s.Wired) (hopened : ∀ key msg,
      s.doing = .opened key msg → ∃ peer, s.Attends key peer) (a : Action)
    (hidle : a.fresh = true → s.doing = .nothing) : Heard (heard ++ s.actGiven a) (s.act P a) := by
  have hnone : ∀ {s' : Rendezvous}, Mutes s s' → s'.doing = s.doing → Heard (heard ++ []) s' := by
    intro s' hm hd
    rw [List.append_nil]
    exact h.mutes hm fun k => by rw [hd]
  cases a with
  | accept peer now =>
      show Heard (heard ++ []) _
      rw [List.append_nil]
      exact h.accept peer now
  | read t key got now =>
      cases t with
      | loop => exact hnone (mutes_readFrom hw.inv key got now) (calms_readFrom s key got now).doing
      | worker i =>
          exact hnone (mutes_workerRead hw.inv i key got now)
            (calms_workerRead s i key got now).doing
  | frame key now v => exact h.takeFrame hw (hidle rfl) key now v
  | goOn now v => exact h.goOn hw.inv hopened now v
  | flush t key sends =>
      exact hnone (mutes_flush t.place key sends s) (calms_flush t.place key sends s).doing
  | expire t key now => exact hnone (mutes_expire s t key now) (calms_expire s t key now).doing
  | follow t key => exact hnone (mutes_follow s t key) (calms_follow s t key).doing
  | close t key => exact hnone (mutes_close s t key).1 (mutes_close s t key).2
  | handOff => exact hnone (moves_handOff s).mutes (moves_handOff s).doing
  | takeInbox i => exact hnone (moves_takeInbox s i).mutes (moves_takeInbox s i).doing
  | publish i => exact hnone (.of_held rfl rfl rfl) rfl
  | udp src dgram now admitted => exact hnone (.of_held rfl rfl rfl) rfl
  | tick now => exact hnone (.of_held rfl rfl rfl) rfl
  | stats now => exact hnone (.of_held rfl rfl rfl) rfl

/-- One action of any thread at any moment. -/
theorem Heard.step (h : Heard heard s) (hw : s.Wired) (hopened : ∀ key msg,
      s.doing = .opened key msg → ∃ peer, s.Attends key peer) (a : Action) :
    Heard (heard ++ s.given a) (s.step P a) := by
  unfold Rendezvous.step given
  split
  · rw [List.append_nil]
    exact h
  · rename_i hready
    exact h.act hw hopened a (idle_of_ready hready)

theorem Heard.init (cfg : RendezvousConfig) (secret : SymKey) : Heard [] (start cfg secret) where
  carries _ hc := absurd hc List.not_mem_nil
  silent _ hc := absurd hc List.not_mem_nil
  later _ _ := rfl

/-- What a run keeps: the service has heard these messages, as the events it was
told. -/
structure Listening (P : Primitives) (service₀ : ControlService) (s : Rendezvous)
    (heard : List (ConnKey × Bytes)) : Prop where
  wired : s.Wired
  hears : Heard heard s
  serving : ∃ events, Serving P service₀ s events ∧
    events.flatMap ControlService.Event.said = heard

/-- The same together with the service's run and the wiring, which the frame
loop relies on. -/
theorem Listening.step {service₀ : ControlService} (h : Listening P service₀ s heard) (a : Action) :
    Listening P service₀ (s.step P a) (heard ++ s.given a) := by
  obtain ⟨hw, hears, events, hserving, rfl⟩ := h
  obtain ⟨events', hserving', hsaid⟩ := hserving.turn hw.inv (Turn.step hw.inv hserving.opened a)
  exact ⟨hw.step a, hears.step hw hserving.opened a, events', hserving', hsaid⟩

/-- After any actions. -/
theorem listening_run (cfg : RendezvousConfig) (secret : SymKey) (actions : List Action) :
    Listening P (ControlService.create cfg.registry secret cfg.control.maxUdpSources)
      (run (step P) (start cfg secret) actions)
      (trace given (step P) (start cfg secret) actions) := by
  have hstart : Listening P
      (ControlService.create cfg.registry secret cfg.control.maxUdpSources) (start cfg secret) [] :=
    ⟨Wired.init cfg secret, Heard.init cfg secret, [], Serving.init cfg secret, rfl⟩
  have hrun := trace_carried (C := Listening P _) (fun _ a _ h => h.step a) hstart actions
  rwa [List.nil_append] at hrun

/-- The service hears the frames of every control connection, whole and in
order, and nothing of any other: of what the socket returned it has heard the
front, and a live connection has the rest in its reader, but for the one frame
the loop may hold. -/
theorem service_hears_frames (cfg : RendezvousConfig) (secret : SymKey) (actions : List Action) :
    let s := run (step P) (start cfg secret) actions
    let heard := trace given (step P) (start cfg secret) actions
    (∃ events,
      Serves P (ControlService.create cfg.registry secret cfg.control.maxUdpSources) s events ∧
        events.flatMap ControlService.Event.said = heard) ∧
    ∀ c ∈ s.all,
      (∀ msg ∈ saidBy c.key heard, msg.length ≤ kMaxFrame) ∧
      stream (saidBy c.key heard) <+: c.received ∧
      (c.mode = .control → c.dead = false →
        c.received = stream (saidBy c.key heard ++ s.doing.keeps c.key) ++ c.reader.buf) ∧
      (c.mode ≠ .control → saidBy c.key heard = []) := by
  intro s heard
  obtain ⟨-, hheard, events, hserving, hsaid⟩ := listening_run (P := P) cfg secret actions
  refine ⟨⟨events, hserving.toServes, hsaid⟩, fun c hc => ?_⟩
  by_cases hmode : c.mode = .control
  · have hcarries := hheard.carries c hc hmode
    refine ⟨fun msg hmsg => (hcarries.carried msg (List.mem_append_left _ hmsg)).1, ?_,
      fun _ hlive => (hcarries.reading hlive).split, fun hplain => absurd hmode hplain⟩
    have hfront := hcarries.front
    rw [stream_append] at hfront
    exact (List.prefix_append _ _).trans hfront
  · have hsilent := hheard.silent c hc hmode
    refine ⟨fun msg hmsg => ?_, ?_, fun hcontrol => absurd hcontrol hmode, fun _ => hsilent⟩
    · rw [hsilent] at hmsg
      exact absurd hmsg List.not_mem_nil
    · rw [hsilent]
      exact List.nil_prefix

end UConnect.Server.Rendezvous
