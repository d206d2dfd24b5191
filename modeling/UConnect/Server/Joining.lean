/-
  Server/Joining.lean --- a connection comes in and finds its partner.

  Source: server/rendezvous.cpp, `accept_all`, `on_frame` and `on_relay_join`.

  An accepted connection is new until its first frame.  That frame makes it a
  control connection or the leg of a relay; a leg waits under the name of its
  side of the relay or is spliced with the leg that waits on the other side.
  Each of these steps keeps the invariant of Server/Connections, and so does
  passing on what the two legs had sent before they met.
-/
import UConnect.Server.Connections

set_option autoImplicit false

namespace UConnect.Server.Rendezvous

open UConnect UConnect.Foundation UConnect.Crypto UConnect.Wire

variable {P : Primitives} {s s' s'' : Rendezvous} {p : Place} {key : ConnKey} {c : Conn}

/-! ## Accepting

A new connection has a key nobody had. -/

/-- Another connection in front of the list changes nobody's partner, unless it
has the key. -/
theorem Mate.cons {held : List Held} {a b : ConnKey} (h : Mate held a b) {x : Held}
    (hx : x.conn.key ≠ a) : Mate (x :: held) a b := by
  intro y hy hkey
  rcases List.mem_cons.mp hy with rfl | hy
  · exact absurd hkey hx
  · exact h y hy hkey

/-- A connection under the next key is in no pair. -/
theorem Mates.cons {held : List Held} {nextKey a b : ConnKey} (h : Mates held nextKey a b) {x : Held}
    (hx : x.conn.key = nextKey) : Mates (x :: held) (nextKey + 1) a b where
  left := h.left.cons (by rw [hx]; exact Nat.ne_of_gt h.old.1)
  right := h.right.cons (by rw [hx]; exact Nat.ne_of_gt h.old.2)
  old := ⟨Nat.lt_succ_of_lt h.old.1, Nat.lt_succ_of_lt h.old.2⟩

/-- Accepting keeps the invariant. -/
theorem Inv.accept (hi : s.Inv) (peer : Option Address) (now : Instant) :
    (s.accept peer now).Inv := by
  unfold Rendezvous.accept
  cases peer with
  | none => exact hi
  | some peer =>
      dsimp only
      split
      · split
        · exact ⟨hi.distinct, hi.old, hi.gone, hi.once, hi.moved, hi.named, hi.waits, hi.paired,
            hi.ready, hi.passing⟩
        · exact hi
      · have hfresh : ∀ x ∈ s.held, x.conn.key ≠ s.nextKey := fun x hx => Nat.ne_of_lt (hi.old x hx)
        refine ⟨?_, ?_, ?_, hi.once, ?_, ?_, ?_, ?_, ?_, ?_⟩
        · refine List.nodup_cons.mpr ⟨fun hmem => ?_, hi.distinct⟩
          obtain ⟨x, hx, hkey⟩ := List.mem_map.mp hmem
          exact hfresh x hx hkey
        · intro x hx
          rcases List.mem_cons.mp hx with rfl | hx
          · exact Nat.lt_succ_self _
          · exact Nat.lt_succ_of_lt (hi.old x hx)
        · intro d hd
          obtain ⟨hold, hother⟩ := hi.gone d hd
          refine ⟨Nat.lt_succ_of_lt hold, fun x hx => ?_⟩
          rcases List.mem_cons.mp hx with rfl | hx
          · exact Nat.ne_of_gt hold
          · exact hother x hx
        · intro x hx hplace
          rcases List.mem_cons.mp hx with rfl | hx
          · exact absurd rfl hplace
          · exact hi.moved x hx hplace
        · intro side id key hname
          obtain ⟨x, hx, hfacts⟩ := hi.named side id key hname
          exact ⟨x, List.mem_cons_of_mem _ hx, hfacts⟩
        · intro x hx hmode hlive
          rcases List.mem_cons.mp hx with rfl | hx
          · cases hmode
          · exact hi.waits x hx hmode hlive
        · intro x hx hmode
          rcases List.mem_cons.mp hx with rfl | hx
          · cases hmode
          · obtain ⟨hold, hpairs⟩ := hi.paired x hx hmode
            refine ⟨Nat.lt_succ_of_lt hold, fun y hy hkey => ?_⟩
            rcases List.mem_cons.mp hy with rfl | hy
            · exact absurd hkey.symm (Nat.ne_of_lt hold)
            · exact hpairs y hy hkey
        · exact fun pair hpair => (hi.ready pair hpair).cons rfl
        · exact fun src dst id again hd => (hi.passing src dst id again hd).cons rfl

/-! ## Joining a relay

The steps of a leg: an earlier leg of its side is cut off, it takes the name of
its side, and it waits under it or meets the one that waits under the other. -/

theorem mem_modify_self {f : Conn → Conn} (hc : ⟨p, c⟩ ∈ s.held) :
    ⟨p, f c⟩ ∈ (s.modify p c.key f).held :=
  mem_modify.mpr ⟨⟨p, c⟩, hc, if_pos ⟨rfl, rfl⟩⟩

theorem mem_modify_of_ne {f : Conn → Conn} {x : Held} (hx : x ∈ s.held) (hne : x.conn.key ≠ key) :
    x ∈ (s.modify p key f).held :=
  mem_modify.mpr ⟨x, hx, if_neg fun hat => hne hat.2⟩

/-- With distinct keys, a connection is written or left alone by its key. -/
theorem mem_modify_cases {f : Conn → Conn} (hd : s.Distinct) (hc : ⟨p, c⟩ ∈ s.held) {x : Held}
    (hx : x ∈ (s.modify p c.key f).held) :
    x = ⟨p, f c⟩ ∨ x ∈ s.held ∧ x.conn.key ≠ c.key := by
  obtain ⟨y, hy, hyx⟩ := mem_modify.mp hx
  by_cases hkey : y.conn.key = c.key
  · obtain rfl := hd.eq hy hc hkey
    rw [if_pos ⟨rfl, rfl⟩] at hyx
    exact .inl hyx.symm
  · rw [if_neg fun hat => hkey hat.2] at hyx
    exact .inr ⟨hyx ▸ hy, hyx ▸ hkey⟩

theorem keys_modify {f : Conn → Conn} (hf : ∀ d, (f d).key = d.key) :
    ((s.modify p key f).held.map fun x => x.conn.key) = s.held.map fun x => x.conn.key := by
  rw [modify, List.map_map]
  refine List.map_congr_left fun x _ => ?_
  rw [Function.comp_apply]
  split
  · exact hf x.conn
  · rfl

theorem Distinct.modify {f : Conn → Conn} (hd : s.Distinct) (hf : ∀ d, (f d).key = d.key) :
    (s.modify p key f).Distinct := by
  rw [Distinct, keys_modify hf]
  exact hd

/-- Taking one name off the list of those that wait takes off that name alone. -/
theorem lookup_unwait (s : Rendezvous) (side side' : Fin 2) (id id' : RelayId) :
    ((s.unwait side id).waiting side').lookup id' =
      if side' = side ∧ id' = id then none else (s.waiting side').lookup id' := by
  show (Function.update s.waiting side ((s.waiting side).erase id) side').lookup id' = _
  by_cases hside : side' = side
  · subst hside
    rw [Function.update_self]
    by_cases hid : id' = id
    · rw [if_pos ⟨rfl, hid⟩, hid, AList.lookup_erase]
    · rw [if_neg fun h => hid h.2, AList.lookup_erase_ne hid]
  · rw [Function.update_of_ne hside, if_neg fun h => hside h.1]

/-- Waiting files the leg under its name and leaves the other names. -/
theorem lookup_wait (s : Rendezvous) (key : ConnKey) (side side' : Fin 2) (id id' : RelayId) :
    ((s.wait key side id).waiting side').lookup id' =
      if side' = side ∧ id' = id then some key else (s.waiting side').lookup id' := by
  show (Function.update s.waiting side ((s.waiting side).insert id key) side').lookup id' = _
  by_cases hside : side' = side
  · subst hside
    rw [Function.update_self]
    by_cases hid : id' = id
    · rw [if_pos ⟨rfl, hid⟩, hid, AList.lookup_insert]
    · rw [if_neg fun h => hid h.2, AList.lookup_insert_ne hid]
  · rw [Function.update_of_ne hside, if_neg fun h => hside h.1]

/-- A name no live leg needs may go. -/
theorem Inv.unwait (hi : s.Inv) {side : Fin 2} {id : RelayId}
    (hfree : ∀ x ∈ s.held, x.conn.mode = .relayWaiting → x.conn.dead = false →
      (s.waiting side).lookup id ≠ some x.conn.key) : (s.unwait side id).Inv where
  distinct := hi.distinct
  old := hi.old
  gone := hi.gone
  once := hi.once
  moved := hi.moved
  named := by
    intro side' id' key hname
    rw [lookup_unwait] at hname
    split at hname
    · cases hname
    · exact hi.named side' id' key hname
  waits := by
    intro x hx hmode hlive
    obtain ⟨side', hside, hname⟩ := hi.waits x hx hmode hlive
    refine ⟨side', hside, ?_⟩
    rw [lookup_unwait]
    split
    · rename_i hsame
      rw [hsame.1, hsame.2] at hname
      exact absurd hname (hfree x hx hmode hlive)
    · exact hname
  paired := hi.paired
  ready := hi.ready
  passing := hi.passing

/-- The waiting leg of a name. -/
theorem Inv.named_eq (hi : s.Inv) {side : Fin 2} {id : RelayId}
    (hname : (s.waiting side).lookup id = some key) {x : Held} (hx : x ∈ s.held)
    (hkey : x.conn.key = key) :
    x.place = .loop ∧ x.conn.mode = .relayWaiting ∧ x.conn.relaySide = some side ∧
      x.conn.relayId = id := by
  obtain ⟨y, hy, hplace, hykey, hmode, hside, hid⟩ := hi.named side id key hname
  obtain rfl := hi.distinct.eq hx hy (hkey.trans hykey.symm)
  exact ⟨hplace, hmode, hside, hid⟩

/-- What is left of the names, and of the connections that are not the earlier
leg. -/
theorem Inv.replaceEarlier (hi : s.Inv) (side : Fin 2) (id : RelayId) :
    (s.replaceEarlier side id).Inv ∧
      ((s.replaceEarlier side id).waiting side).lookup id = none ∧
      (∀ x ∈ s.held, x.conn.mode = .new → x ∈ (s.replaceEarlier side id).held) := by
  unfold Rendezvous.replaceEarlier
  cases hname : (s.waiting side).lookup id with
  | none => exact ⟨hi, hname, fun x hx _ => hx⟩
  | some old =>
      have hkill := hi.calms (Calms.killAt s .loop old)
      refine ⟨hkill.unwait ?_, ?_, ?_⟩
      · -- the leg of this name has just been killed
        intro x hx hmode hlive hsame
        obtain ⟨y, hy, hyx⟩ := mem_modify.mp hx
        have hold : old = x.conn.key := Option.some.inj (hname.symm.trans hsame)
        have hloop := (hkill.named_eq hsame hx rfl).1
        by_cases hat : y.place = .loop ∧ y.conn.key = old
        · rw [if_pos hat] at hyx
          rw [← hyx] at hlive
          cases hlive
        · rw [if_neg hat] at hyx
          subst hyx
          exact hat ⟨hloop, hold.symm⟩
      · rw [lookup_unwait, if_pos ⟨rfl, rfl⟩]
      · intro x hx hnew
        refine mem_modify_of_ne hx fun hkey => ?_
        have hmode := (hi.named_eq hname hx hkey).2.1
        rw [hnew] at hmode
        cases hmode

/-- A connection that is no leg yet is in no pair. -/
theorem Mate.modify {f : Conn → Conn} {a b : ConnKey} (h : Mate s.held a b) (hd : s.Distinct)
    (hc : ⟨p, c⟩ ∈ s.held) (hmode : c.mode ≠ .splice) (hkey : (f c).key = c.key) :
    Mate (s.modify p c.key f).held a b := by
  intro x hx hxa
  rcases mem_modify_cases hd hc hx with rfl | ⟨hx, -⟩
  · exact absurd (h _ hc (hkey.symm.trans hxa)).1 hmode
  · exact h x hx hxa

theorem Mates.modify {f : Conn → Conn} {a b : ConnKey} (h : Mates s.held s.nextKey a b)
    (hd : s.Distinct) (hc : ⟨p, c⟩ ∈ s.held) (hmode : c.mode ≠ .splice) (hkey : (f c).key = c.key) :
    Mates (s.modify p c.key f).held s.nextKey a b :=
  ⟨h.left.modify hd hc hmode hkey, h.right.modify hd hc hmode hkey, h.old⟩

/-- A new connection that has its side waits under a name that is free. -/
theorem Inv.wait (hi : s.Inv) (hc : ⟨.loop, c⟩ ∈ s.held) (hnew : c.mode = .new) {side : Fin 2}
    {id : RelayId} (hside : c.relaySide = some side) (hid : c.relayId = id)
    (hfree : (s.waiting side).lookup id = none) : (s.wait c.key side id).Inv := by
  have hcases : ∀ x ∈ (s.wait c.key side id).held,
      x = ⟨.loop, c.toWaiting⟩ ∨ x ∈ s.held ∧ x.conn.key ≠ c.key :=
    fun x hx => mem_modify_cases (f := Conn.toWaiting) hi.distinct hc hx
  have hlegs : ∀ x ∈ s.held, x.conn.mode ≠ .new → x ∈ (s.modify .loop c.key Conn.toWaiting).held := by
    intro x hx hmode
    refine mem_modify_of_ne hx fun hkey => hmode ?_
    rw [hi.distinct.eq hx hc hkey]
    exact hnew
  have hmates : ∀ {a b : ConnKey}, Mates s.held s.nextKey a b →
      Mates (s.modify .loop c.key Conn.toWaiting).held s.nextKey a b :=
    fun hm => hm.modify hi.distinct hc (by rw [hnew]; decide) rfl
  have hmode : c.mode ≠ .splice := by
    rw [hnew]
    decide
  refine ⟨hi.distinct.modify (f := Conn.toWaiting) fun _ => rfl, ?_, ?_, hi.once, ?_, ?_, ?_, ?_, ?_,
    ?_⟩
  · intro x hx
    rcases hcases x hx with rfl | ⟨hx, -⟩
    · exact hi.old ⟨.loop, c⟩ hc
    · exact hi.old x hx
  · intro e he
    obtain ⟨hold, hother⟩ := hi.gone e he
    refine ⟨hold, fun x hx => ?_⟩
    rcases hcases x hx with rfl | ⟨hx, -⟩
    · exact hother ⟨.loop, c⟩ hc
    · exact hother x hx
  · intro x hx hplace
    rcases hcases x hx with rfl | ⟨hx, -⟩
    · exact absurd rfl hplace
    · exact hi.moved x hx hplace
  · intro side' id' key hname
    rw [lookup_wait] at hname
    split at hname
    · rename_i hsame
      obtain rfl := Option.some.inj hname
      refine ⟨⟨.loop, c.toWaiting⟩, mem_modify_self hc, rfl, rfl, rfl, ?_, ?_⟩
      · rw [hsame.1]
        exact hside
      · rw [hsame.2]
        exact hid
    · obtain ⟨x, hx, hplace, hkey, hwaits, hrest⟩ := hi.named side' id' key hname
      have hold : x.conn.mode ≠ .new := by
        rw [hwaits]
        decide
      exact ⟨x, hlegs x hx hold, hplace, hkey, hwaits, hrest⟩
  · intro x hx hwaits hlive
    rcases hcases x hx with rfl | ⟨hx, -⟩
    · refine ⟨side, hside, ?_⟩
      rw [lookup_wait, if_pos ⟨rfl, hid⟩]
      rfl
    · obtain ⟨side', hside', hname⟩ := hi.waits x hx hwaits hlive
      refine ⟨side', hside', ?_⟩
      rw [lookup_wait]
      split
      · rename_i hsame
        rw [hsame.1, hsame.2, hfree] at hname
        cases hname
      · exact hname
  · intro x hx hsplice
    rcases hcases x hx with rfl | ⟨hx, -⟩
    · cases hsplice
    · obtain ⟨hold, hpairs⟩ := hi.paired x hx hsplice
      refine ⟨hold, fun y hy hkey => ?_⟩
      rcases hcases y hy with rfl | ⟨hy, -⟩
      · exact absurd (hpairs ⟨.loop, c⟩ hc hkey).mode hmode
      · exact hpairs y hy hkey
  · exact fun pair hpair => hmates (hi.ready pair hpair)
  · exact fun src dst id again hd => hmates (hi.passing src dst id again hd)

section Splice

variable {d : Conn} {side : Fin 2} {id : RelayId}

/-- After two connections have been written, a connection is one of them or as
it was. -/
theorem mem_modify_two {f g : Conn → Conn} (hdist : s.Distinct) (hc : ⟨p, c⟩ ∈ s.held)
    (hd : ⟨p, d⟩ ∈ s.held) (hne : d.key ≠ c.key) {x : Held}
    (hx : x ∈ ((s.modify p c.key f).modify p d.key g).held) (hf : ∀ e, (f e).key = e.key) :
    x = ⟨p, f c⟩ ∨ x = ⟨p, g d⟩ ∨ x ∈ s.held ∧ x.conn.key ≠ c.key ∧ x.conn.key ≠ d.key := by
  have hd' : ⟨p, d⟩ ∈ (s.modify p c.key f).held := mem_modify_of_ne hd hne
  rcases mem_modify_cases (f := g) (hdist.modify hf) hd' hx with rfl | ⟨hx, hxd⟩
  · exact .inr (.inl rfl)
  · rcases mem_modify_cases (f := f) hdist hc hx with rfl | ⟨hx, hxc⟩
    · exact .inl rfl
    · exact .inr (.inr ⟨hx, hxc, hxd⟩)

/-- After a splice a connection is one of the two legs, or as it was. -/
theorem mem_splice (hdist : s.Distinct) (hc : ⟨.loop, c⟩ ∈ s.held) (hd : ⟨.loop, d⟩ ∈ s.held)
    (hne : d.key ≠ c.key) {x : Held} (hx : x ∈ (s.splice c.key d.key id).held) :
    x = ⟨.loop, c.toSplice d.key⟩ ∨ x = ⟨.loop, d.toSplice c.key⟩ ∨
      x ∈ s.held ∧ x.conn.key ≠ c.key ∧ x.conn.key ≠ d.key :=
  mem_modify_two (f := fun c => c.toSplice d.key) (g := fun p => p.toSplice c.key) hdist hc hd
    hne hx fun _ => rfl

theorem mem_splice_of_ne {x : Held} (hx : x ∈ s.held) (hxc : x.conn.key ≠ c.key)
    (hxd : x.conn.key ≠ d.key) : x ∈ (s.splice c.key d.key id).held := by
  have hfirst : x ∈ (s.modify .loop c.key fun c => c.toSplice d.key).held := mem_modify_of_ne hx hxc
  exact mem_modify_of_ne (f := fun p => p.toSplice c.key) hfirst hxd

/-- The new connection `c` has its side, and the leg `d` waits on the other side
of the relay. -/
structure Meets (s : Rendezvous) (c d : Conn) (side : Fin 2) (id : RelayId) : Prop where
  joins : ⟨.loop, c⟩ ∈ s.held
  new : c.mode = .new
  takes : c.relaySide = some side
  relay : c.relayId = id
  waits : ⟨.loop, d⟩ ∈ s.held
  name : (s.waiting (1 - side)).lookup id = some d.key

namespace Meets

variable (h : s.Meets c d side id) (hi : s.Inv)
include h hi

theorem named : d.mode = .relayWaiting ∧ d.relaySide = some (1 - side) ∧ d.relayId = id :=
  (hi.named_eq h.name h.waits rfl).2

theorem ne : d.key ≠ c.key := by
  intro hkey
  have heq := congrArg (·.conn.mode) (hi.distinct.eq h.waits h.joins hkey)
  dsimp only at heq
  rw [h.new, (h.named hi).1] at heq
  cases heq

/-- Neither is a leg with a partner yet. -/
theorem no_leg : c.mode ≠ .splice ∧ d.mode ≠ .splice := by
  rw [h.new, (h.named hi).1]
  exact ⟨Mode.noConfusion, Mode.noConfusion⟩

/-- Behind a splice there are the two legs, each naming the other, and the
connections that were there before. -/
theorem mem {x : Held} (hx : x ∈ (s.splice c.key d.key id).held) :
    x = ⟨.loop, c.toSplice d.key⟩ ∨ x = ⟨.loop, d.toSplice c.key⟩ ∨
      x ∈ s.held ∧ x.conn.key ≠ c.key ∧ x.conn.key ≠ d.key :=
  mem_splice hi.distinct h.joins h.waits (h.ne hi) hx

/-- The keys are those there were. -/
theorem key_mem {x : Held} (hx : x ∈ (s.splice c.key d.key id).held) :
    ∃ y ∈ s.held, y.conn.key = x.conn.key := by
  rcases h.mem hi hx with rfl | rfl | ⟨hx, -, -⟩
  · exact ⟨_, h.joins, rfl⟩
  · exact ⟨_, h.waits, rfl⟩
  · exact ⟨x, hx, rfl⟩

/-- The pairs there are stay pairs. -/
theorem mates {a b : ConnKey} (hm : Mates s.held s.nextKey a b) :
    Mates (s.splice c.key d.key id).held s.nextKey a b := by
  have hfirst : Mates (s.modify .loop c.key fun c => c.toSplice d.key).held s.nextKey a b :=
    hm.modify hi.distinct h.joins (h.no_leg hi).1 rfl
  have hdist : (s.modify .loop c.key fun c => c.toSplice d.key).Distinct :=
    hi.distinct.modify (f := fun c => c.toSplice d.key) fun _ => rfl
  exact Mates.modify (f := fun p => p.toSplice c.key) hfirst hdist
    (mem_modify_of_ne h.waits (h.ne hi)) (h.no_leg hi).2 rfl

/-- The two legs are a pair now. -/
theorem pair : Mates (s.splice c.key d.key id).held s.nextKey c.key d.key := by
  have hne := h.ne hi
  refine ⟨fun x hx hkey => ?_, fun x hx hkey => ?_, hi.old _ h.joins, hi.old _ h.waits⟩
  · rcases h.mem hi hx with rfl | rfl | ⟨-, hxc, -⟩
    · exact ⟨rfl, rfl⟩
    · exact absurd hkey hne
    · exact absurd hkey hxc
  · rcases h.mem hi hx with rfl | rfl | ⟨-, -, hxd⟩
    · exact absurd hkey.symm hne
    · exact ⟨rfl, rfl⟩
    · exact absurd hkey hxd

/-- Of the names, the one of the leg that waited is gone. -/
theorem names {side' : Fin 2} {id' : RelayId} {key : ConnKey}
    (hname : ((s.unwait (1 - side) id).waiting side').lookup id' = some key) :
    ∃ x ∈ (s.splice c.key d.key id).held, x.place = .loop ∧ x.conn.key = key ∧
      x.conn.mode = .relayWaiting ∧ x.conn.relaySide = some side' ∧ x.conn.relayId = id' := by
  obtain ⟨-, hdside, hdid⟩ := h.named hi
  rw [lookup_unwait] at hname
  split at hname
  · cases hname
  · rename_i hother
    obtain ⟨x, hx, hplace, hkey, hwaits, hxside, hxid⟩ := hi.named side' id' key hname
    refine ⟨x, mem_splice_of_ne hx ?_ ?_, hplace, hkey, hwaits, hxside, hxid⟩
    · intro hxc
      rw [hi.distinct.eq hx h.joins hxc, h.new] at hwaits
      cases hwaits
    · -- the leg that waited has this name only
      intro hxd
      rw [hi.distinct.eq hx h.waits hxd] at hxside hxid
      exact hother ⟨Option.some.inj (hxside.symm.trans hdside), hxid.symm.trans hdid⟩

/-- Any other live leg that waits has kept its name. -/
theorem keeps_name {x : Held} (hx : x ∈ (s.splice c.key d.key id).held)
    (hwaits : x.conn.mode = .relayWaiting) (hlive : x.conn.dead = false) :
    ∃ side', x.conn.relaySide = some side' ∧
      ((s.unwait (1 - side) id).waiting side').lookup x.conn.relayId = some x.conn.key := by
  rcases h.mem hi hx with rfl | rfl | ⟨hx, -, hxd⟩
  · cases hwaits
  · cases hwaits
  · obtain ⟨side', hxside, hname⟩ := hi.waits x hx hwaits hlive
    refine ⟨side', hxside, ?_⟩
    rw [lookup_unwait]
    split
    · rename_i hsame
      rw [hsame.1, hsame.2, h.name] at hname
      exact absurd (Option.some.inj hname).symm hxd
    · exact hname

/-- Every leg is opposite its partner, the two new ones with the rest. -/
theorem paired {x : Held} (hx : x ∈ (s.splice c.key d.key id).held)
    (hsplice : x.conn.mode = .splice) : x.conn.partner < s.nextKey ∧
      ∀ y ∈ (s.splice c.key d.key id).held, y.conn.key = x.conn.partner → Opposite x y := by
  obtain ⟨-, hdside, hdid⟩ := h.named hi
  have hne := h.ne hi
  rcases h.mem hi hx with rfl | rfl | ⟨hx, -, -⟩
  · refine ⟨hi.old _ h.waits, fun y hy hkey => ?_⟩
    rcases h.mem hi hy with rfl | rfl | ⟨-, -, hyd⟩
    · exact absurd hkey.symm hne
    · exact ⟨rfl, rfl, rfl, hdid.trans h.relay.symm, side, h.takes, hdside⟩
    · exact absurd hkey hyd
  · refine ⟨hi.old _ h.joins, fun y hy hkey => ?_⟩
    rcases h.mem hi hy with rfl | rfl | ⟨-, hyc, -⟩
    · refine ⟨rfl, rfl, rfl, h.relay.trans hdid.symm, 1 - side, hdside, ?_⟩
      rw [other_other]
      exact h.takes
    · exact absurd hkey hne
    · exact absurd hkey hyc
  · obtain ⟨hold, hpairs⟩ := hi.paired x hx hsplice
    refine ⟨hold, fun y hy hkey => ?_⟩
    rcases h.mem hi hy with rfl | rfl | ⟨hy, -, -⟩
    · exact absurd (hpairs _ h.joins hkey).mode (h.no_leg hi).1
    · exact absurd (hpairs _ h.waits hkey).mode (h.no_leg hi).2
    · exact hpairs y hy hkey

end Meets

/-- The new connection and the leg that waits for it become a pair. -/
theorem Inv.splice (hi : s.Inv) (h : s.Meets c d side id) :
    ((s.unwait (1 - side) id).splice c.key d.key id).Inv where
  distinct := (hi.distinct.modify (f := fun c => c.toSplice d.key) fun _ => rfl).modify
    (f := fun p => p.toSplice c.key) fun _ => rfl
  old := by
    intro x hx
    obtain ⟨y, hy, hkey⟩ := h.key_mem hi hx
    exact hkey ▸ hi.old y hy
  gone := by
    intro e he
    obtain ⟨hold, hother⟩ := hi.gone e he
    refine ⟨hold, fun x hx => ?_⟩
    obtain ⟨y, hy, hkey⟩ := h.key_mem hi hx
    exact hkey ▸ hother y hy
  once := hi.once
  moved := by
    intro x hx hplace
    rcases h.mem hi hx with rfl | rfl | ⟨hx, -, -⟩
    · rfl
    · rfl
    · exact hi.moved x hx hplace
  named := fun side' id' key hname => h.names hi hname
  waits := fun x hx hwaits hlive => h.keeps_name hi hx hwaits hlive
  paired := fun x hx hsplice => h.paired hi hx hsplice
  ready := fun pair hpair => h.mates hi (hi.ready pair hpair)
  passing := by
    intro src dst id' again hdoing
    cases hdoing
    exact h.pair hi

end Splice

/-- Both outcomes of pairing keep the invariant: the leg waits, or the two are
spliced. -/
theorem Inv.pair (hi : s.Inv) (hc : ⟨.loop, c⟩ ∈ s.held) (hnew : c.mode = .new) {side : Fin 2}
    {id : RelayId} (hside : c.relaySide = some side) (hid : c.relayId = id)
    (hfree : (s.waiting side).lookup id = none) : (s.pair c.key side id).Inv := by
  unfold Rendezvous.pair
  cases hname : (s.waiting (1 - side)).lookup id with
  | none => exact hi.wait hc hnew hside hid hfree
  | some other =>
      dsimp only
      cases hfind : (s.unwait (1 - side) id).find .loop other with
      | none =>
          obtain ⟨x, hx, hplace, hkey, -⟩ := hi.named _ _ _ hname
          exact absurd hplace (not_held_of_find (s := s) hfind hx hkey)
      | some d =>
          obtain ⟨hd, rfl⟩ := mem_of_find (s := s) hfind
          dsimp only
          split
          · rename_i hdead
            have hgone : (s.unwait (1 - side) id).Inv := by
              refine hi.unwait fun x hx _ hlive hsame => ?_
              obtain rfl := hi.distinct.eq hx hd (Option.some.inj (hsame.symm.trans hname))
              rw [hdead] at hlive
              cases hlive
            refine hgone.wait hc hnew hside hid ?_
            rw [lookup_unwait]
            split
            · rfl
            · exact hfree
          · exact hi.splice ⟨hc, hnew, hside, hid, hd, hname⟩

/-- A new connection takes its side. -/
theorem calms_takeSide (hd : s.Distinct) (hc : ⟨.loop, c⟩ ∈ s.held) (hnew : c.mode = .new)
    (relay : RelayId) (side : Fin 2) :
    Calms s (s.modify .loop c.key fun d => d.takeSide relay side) := by
  refine Calms.modify fun x hx _ hkey => ⟨⟨rfl, rfl, rfl, id, .inl rfl, fun hlegs => ?_⟩, rfl⟩
  obtain rfl := hd.eq hx hc hkey
  simp [Conn.raw, hnew] at hlegs

/-- So does the frame that joins a relay, in whichever way it ends. -/
theorem Inv.onRelayJoin (hi : s.Inv) (hc : ⟨.loop, c⟩ ∈ s.held) (hnew : c.mode = .new)
    (msg : Bytes) : (s.onRelayJoin c msg).Inv := by
  unfold Rendezvous.onRelayJoin
  cases s.joinSide msg with
  | none => exact hi.calms (Calms.killAt s _ _)
  | some joined =>
      obtain ⟨relay, side⟩ := joined
      dsimp only
      generalize c.reader.takeRest.1 = early
      have hraw : Calms s (s.modify .loop c.key fun d => d.toRaw early msg) :=
        Calms.modify_data fun _ => ⟨rfl, rfl, id, rfl, rfl, rfl, rfl⟩
      split
      · exact hi.calms (hraw.trans (Calms.killAt _ _ _))
      · have hmem : ⟨.loop, c.toRaw early msg⟩ ∈
            (s.modify .loop c.key fun d => d.toRaw early msg).held := mem_modify_self hc
        have hside := calms_takeSide (hi.calms hraw).distinct hmem hnew relay side
        obtain ⟨hinv, hfree, hkept⟩ := (hi.calms (hraw.trans hside)).replaceEarlier side relay
        have hmem' := mem_modify_self (f := fun d => d.takeSide relay side) hmem
        exact hinv.pair (hkept _ hmem' hnew) hnew rfl rfl hfree

/-- The loop has something else to do. -/
theorem Inv.setDoing (hi : s.Inv) {d : Doing} (hd : ∀ src dst id again,
    d = .passing src dst id again → Mates s.held s.nextKey src dst) : Inv { s with doing := d } :=
  ⟨hi.distinct, hi.old, hi.gone, hi.once, hi.moved, hi.named, hi.waits, hi.paired, hi.ready, hd⟩

/-- A connection that becomes a control connection was in no pair and under no
name. -/
theorem Inv.openControl (hi : s.Inv) (hc : ⟨.loop, c⟩ ∈ s.held) (hnew : c.mode = .new)
    (msg : Bytes) : (s.openControl c msg).Inv := by
  have hmode : Kins s (s.modify .loop c.key fun d => { d with mode := .control }) := by
    refine Kins.modify fun x hx _ hkey => ?_
    obtain rfl := hi.distinct.eq hx hc hkey
    refine ⟨rfl, rfl, rfl, id, .inr ⟨hnew, rfl⟩, fun hlegs => ?_⟩
    simp [Conn.raw, hnew] at hlegs
  have hservice : Kins s { s.modify .loop c.key fun d => { d with mode := .control } with
      service := s.service.onOpen c.key c.peer } :=
    hmode.trans (Kins.of_held rfl rfl rfl rfl rfl rfl rfl rfl)
  refine (hi.kins hservice).setDoing fun src dst id again hd => ?_
  cases hd

/-- So does any frame of the loop. -/
theorem Inv.takeFrame (hi : s.Inv) (key : ConnKey) (now : Instant) (v : Verdict) :
    (s.takeFrame P key now v).Inv := by
  unfold Rendezvous.takeFrame
  cases hfind : s.find .loop key with
  | none => exact hi
  | some c =>
      obtain ⟨hc, rfl⟩ := mem_of_find hfind
      dsimp only
      split
      · exact hi
      · have hreader : Calms s (s.modify .loop c.key fun d => { d with reader := c.reader.next.2 }) :=
          Calms.modify_data fun _ => ⟨rfl, rfl, id, rfl, rfl, rfl, rfl⟩
        have hmem := mem_modify_self (f := fun d => { d with reader := c.reader.next.2 }) hc
        cases c.reader.next.1 with
        | none =>
            dsimp only
            split
            · exact hi.calms (hreader.trans (Calms.killAt _ _ _))
            · exact hi.calms hreader
        | some msg =>
            dsimp only
            unfold onFrame
            cases hmode : c.mode with
            | new =>
                dsimp only
                split
                · exact (hi.calms hreader).onRelayJoin hmem hmode msg
                · exact (hi.calms hreader).openControl hmem hmode msg
            | control => exact hi.calms (hreader.trans (calms_onControl _ _ _ _ _))
            | relayWaiting => exact hi.calms hreader
            | splice => exact hi.calms hreader

/-! ## Passing on what came early

A turn of its own for each direction, in which the connections stay what they
are. -/

theorem Inv.passed (hi : s.Inv) {src dst : ConnKey} (hm : Mates s.held s.nextKey src dst)
    (id : RelayId) (again : Bool) : (s.passed src dst id again).Inv := by
  unfold Rendezvous.passed
  split
  · refine hi.setDoing fun src' dst' id' again' hd => ?_
    cases hd
    exact hm.symm
  · refine ⟨hi.distinct, hi.old, hi.gone, hi.once, hi.moved, hi.named, hi.waits, hi.paired,
      fun pair hpair => ?_, ?_⟩
    · dsimp only at hpair
      split at hpair
      · exact hi.ready pair hpair
      · rcases List.mem_append.mp hpair with hpair | hpair
        · exact hi.ready pair hpair
        · obtain rfl := List.mem_singleton.mp hpair
          exact hm.symm
    · intro src' dst' id' again' hd
      cases hd

/-- Passing on early bytes changes two buffers, or kills both legs. -/
theorem Inv.passEarly (hi : s.Inv) {src dst : ConnKey} (hm : Mates s.held s.nextKey src dst)
    (id : RelayId) (again : Bool) (now : Instant) : (s.passEarly src dst id again now).Inv := by
  have hnothing : ∀ {t : Rendezvous}, t.Inv → Inv { t with doing := .nothing } := by
    intro t ht
    refine ht.setDoing fun src' dst' id' again' hd => ?_
    cases hd
  unfold Rendezvous.passEarly
  cases s.find .loop src with
  | none => exact hnothing hi
  | some c =>
      have htaken : Calms s (s.modify .loop src fun d => { d with relayEarly := [] }) :=
        Calms.modify_data fun _ => ⟨rfl, rfl, fun h => h, rfl, rfl, rfl, rfl⟩
      have hcharged := htaken.trans (Calms.charge _ id c.relayEarly.length now)
      dsimp only
      split
      · exact (hi.calms htaken).passed (hm.calms htaken) id again
      · split
        · have hpassed := hcharged.trans (Calms.modify_data (p := .loop) (k := dst)
            (f := fun d => { d with out := d.out ++ c.relayEarly })
            fun _ => ⟨rfl, rfl, fun h => h, rfl, rfl, rfl, rfl⟩)
          exact (hi.calms hpassed).passed (hm.calms hpassed) id again
        · exact hnothing (hi.calms ((hcharged.trans (Calms.killAt _ _ _)).trans
            (Calms.killAt _ _ _)))

/-- Whatever the loop had left to do keeps the invariant. -/
theorem Inv.goOn (hi : s.Inv) (now : Instant) (v : Verdict) : (s.goOn P now v).Inv := by
  unfold Rendezvous.goOn
  cases hd : s.doing with
  | nothing => exact hi
  | opened key msg =>
      have hnothing : Inv { s with doing := .nothing } := by
        refine hi.setDoing fun src dst id again hd => ?_
        cases hd
      exact hnothing.calms (calms_onControl _ _ _ _ _)
  | passing src dst id again => exact hi.passEarly (hi.passing src dst id again hd) id again now

end UConnect.Server.Rendezvous
