/-
  Server/Departing.lean --- connections move to a worker and are closed.

  Source: server/rendezvous.cpp, `hand_off`, `worker_loop`, `reap` and
  `release`.

  A pair moves as one: wherever its legs go, they are in one place.  A
  connection is closed where it is held, and the loop forgets the name it waited
  under before it goes.  Nothing of this breaks the invariant of
  Server/Connections.
-/
import UConnect.Server.Joining

set_option autoImplicit false

namespace UConnect.Server.Rendezvous

open UConnect UConnect.Foundation UConnect.Crypto UConnect.Wire

variable {P : Primitives} {s s' s'' : Rendezvous} {p : Place} {key : ConnKey} {c : Conn}

/-! ## Moving to a worker

Changing the place of some connections, both legs of a pair or neither. -/

section Relocate

variable {r : Held → Place}

/-- The connections with new places. -/
def relocate (r : Held → Place) (held : List Held) : List Held :=
  held.map fun x => { x with place := r x }

theorem mem_relocate {held : List Held} {y : Held} (hy : y ∈ relocate r held) :
    ∃ x ∈ held, y = { x with place := r x } := by
  obtain ⟨x, hx, rfl⟩ := List.mem_map.mp hy
  exact ⟨x, hx, rfl⟩

theorem relocate_if {q : Held → Prop} [DecidablePred q] (p : Place) (held : List Held) :
    (held.map fun x => if q x then { x with place := p } else x) =
      relocate (fun x => if q x then p else x.place) held := by
  refine List.map_congr_left fun x _ => ?_
  dsimp only
  split <;> rfl

theorem Mates.relocate {held : List Held} {nextKey a b : ConnKey} (h : Mates held nextKey a b) :
    Mates (relocate r held) nextKey a b := by
  refine ⟨fun y hy hkey => ?_, fun y hy hkey => ?_, h.old⟩
  · obtain ⟨x, hx, rfl⟩ := mem_relocate hy
    exact h.left x hx hkey
  · obtain ⟨x, hx, rfl⟩ := mem_relocate hy
    exact h.right x hx hkey

/-- Legs may move, if the two of a pair move together. -/
theorem Inv.relocated (hi : s.Inv) (n : Nat)
    (hlegs : ∀ x ∈ s.held, r x = x.place ∨ x.conn.mode = .splice)
    (hpair : ∀ x ∈ s.held, x.conn.mode = .splice → ∀ y ∈ s.held, y.conn.key = x.conn.partner →
      Opposite x y → r y = r x) :
    Inv { s with held := relocate r s.held, nextWorker := n } where
  distinct := by
    show ((s.held.map _).map _).Nodup
    rw [List.map_map]
    exact hi.distinct
  old := by
    intro y hy
    obtain ⟨x, hx, rfl⟩ := mem_relocate hy
    exact hi.old x hx
  gone := by
    intro c hc
    obtain ⟨hold, hother⟩ := hi.gone c hc
    refine ⟨hold, fun y hy => ?_⟩
    obtain ⟨x, hx, rfl⟩ := mem_relocate hy
    exact hother x hx
  once := hi.once
  moved := by
    intro y hy hplace
    obtain ⟨x, hx, rfl⟩ := mem_relocate hy
    rcases hlegs x hx with hsame | hsplice
    · exact hi.moved x hx (hsame ▸ hplace)
    · exact hsplice
  named := by
    intro side id key hname
    obtain ⟨x, hx, hplace, hkey, hwaits, hrest⟩ := hi.named side id key hname
    refine ⟨{ x with place := r x }, List.mem_map_of_mem hx, ?_, hkey, hwaits, hrest⟩
    rcases hlegs x hx with hsame | hsplice
    · exact hsame.trans hplace
    · rw [hsplice] at hwaits
      cases hwaits
  waits := by
    intro y hy hmode hlive
    obtain ⟨x, hx, rfl⟩ := mem_relocate hy
    exact hi.waits x hx hmode hlive
  paired := by
    intro y hy hmode
    obtain ⟨x, hx, rfl⟩ := mem_relocate hy
    obtain ⟨hold, hpairs⟩ := hi.paired x hx hmode
    refine ⟨hold, fun y' hy' hkey => ?_⟩
    obtain ⟨x', hx', rfl⟩ := mem_relocate hy'
    have hopp := hpairs x' hx' hkey
    exact ⟨hpair x hx hmode x' hx' hkey hopp, hopp.mode, hopp.partner, hopp.relay, hopp.sides⟩
  ready := fun pair hready => (hi.ready pair hready).relocate
  passing := fun src dst id again hd => (hi.passing src dst id again hd).relocate

end Relocate

/-- What a worker takes from its inbox are whole pairs. -/
theorem Inv.takeInbox (hi : s.Inv) (i : Nat) : (s.takeInbox i).Inv := by
  unfold Rendezvous.takeInbox
  rw [relocate_if]
  refine hi.relocated s.nextWorker (fun x hx => ?_) fun x _ _ y _ _ hopp => ?_
  · split
    · rename_i hinbox
      refine .inr (hi.moved x hx ?_)
      rw [hinbox]
      exact Place.noConfusion
    · exact .inl rfl
  · rw [hopp.place]

theorem Inv.handOffPair (hi : s.Inv) {a b : ConnKey} (hm : Mates s.held s.nextKey a b) :
    (s.handOffPair (a, b)).Inv := by
  unfold Rendezvous.handOffPair
  cases s.find .loop a with
  | none => exact hi
  | some ca =>
      cases s.find .loop b with
      | none => exact hi
      | some cb =>
          dsimp only
          split
          · exact hi
          · rw [relocate_if]
            refine hi.relocated _ (fun x hx => ?_) fun x hx _ y hy hkey hopp => ?_
            · split
              · rename_i hat
                rcases hat.2 with ha | hb
                · exact .inr (hm.left x hx ha).1
                · exact .inr (hm.right x hx hb).1
              · exact .inl rfl
            · -- a leg is one of the two exactly if its partner is
              have hiff : (y.conn.key = a ∨ y.conn.key = b) ↔ (x.conn.key = a ∨ x.conn.key = b) := by
                constructor
                · rintro (ha | hb)
                  · exact .inr (hopp.partner.symm.trans (hm.left y hy ha).2)
                  · exact .inl (hopp.partner.symm.trans (hm.right y hy hb).2)
                · rintro (ha | hb)
                  · exact .inr (hkey.trans (hm.left x hx ha).2)
                  · exact .inl (hkey.trans (hm.right x hx hb).2)
              rw [hopp.place]
              exact if_congr (and_congr_right fun _ => hiff) rfl rfl

theorem spliced_handOffPair (s : Rendezvous) (pair : ConnKey × ConnKey) :
    (s.handOffPair pair).spliced = s.spliced := by
  unfold Rendezvous.handOffPair
  cases s.find .loop pair.1 with
  | none => rfl
  | some a =>
      cases s.find .loop pair.2 with
      | none => rfl
      | some b =>
          dsimp only
          split <;> rfl

/-- Both legs of a pair go to the same inbox. -/
theorem Inv.handOff (hi : s.Inv) : s.handOff.Inv := by
  have hfold : ∀ (l : List (ConnKey × ConnKey)) (s : Rendezvous), s.Inv →
      (∀ pair ∈ l, pair ∈ s.spliced) → (l.foldl Rendezvous.handOffPair s).Inv := by
    intro l
    induction l with
    | nil => exact fun s hi _ => hi
    | cons pair l ih =>
        intro s hi hl
        refine ih _ (hi.handOffPair (hi.ready pair (hl pair List.mem_cons_self))) fun q hq => ?_
        rw [spliced_handOffPair]
        exact hl q (List.mem_cons_of_mem _ hq)
  have hmoved := hfold s.spliced s hi fun _ h => h
  exact ⟨hmoved.distinct, hmoved.old, hmoved.gone, hmoved.once, hmoved.moved, hmoved.named,
    hmoved.waits, hmoved.paired,
    fun _ h => absurd h List.not_mem_nil, hmoved.passing⟩

/-! ## Closing

Where a connection stood, nothing finds it afterwards; its partner is left with
a key that finds nobody, or was left before. -/

/-- A place and a key find one connection at most. -/
theorem Distinct.eraseP (hd : s.Distinct) (hc : ⟨p, c⟩ ∈ s.held) :
    ∃ l₁ l₂, s.held = l₁ ++ ⟨p, c⟩ :: l₂ ∧
      (s.held.eraseP fun x => x.place = p && x.conn.key = c.key) = l₁ ++ l₂ := by
  obtain ⟨x, l₁, l₂, -, hx, heq, herase⟩ := List.exists_of_eraseP
    (p := fun x : Held => x.place = p && x.conn.key = c.key) hc (by simp)
  simp only [Bool.and_eq_true, decide_eq_true_eq] at hx
  have hmem : x ∈ s.held := by
    rw [heq]
    exact List.mem_append_right _ List.mem_cons_self
  obtain rfl := hd.eq hmem hc hx.2
  exact ⟨l₁, l₂, heq, herase⟩

/-- The connection that was found is no longer there. -/
theorem Distinct.eraseP_ne (hd : s.Distinct) (hc : ⟨p, c⟩ ∈ s.held) {x : Held}
    (hx : x ∈ s.held.eraseP fun x => x.place = p && x.conn.key = c.key) :
    x.conn.key ≠ c.key := by
  obtain ⟨l₁, l₂, heq, herase⟩ := hd.eraseP hc
  rw [herase] at hx
  intro hkey
  have hperm : (s.held.map fun y => y.conn.key).Perm (c.key :: (l₁ ++ l₂).map fun y => y.conn.key) := by
    rw [heq]
    exact (List.perm_middle.map _)
  have hnot := (List.nodup_cons.mp (hperm.nodup_iff.mp hd)).1
  exact hnot (List.mem_map.mpr ⟨x, hx, hkey⟩)

theorem Inv.release (hi : s.Inv) (ip : Vector UInt8 16) : (s.release ip).Inv := by
  unfold Rendezvous.release
  cases s.perIp.lookup ip with
  | none => exact hi
  | some n =>
      exact ⟨hi.distinct, hi.old, hi.gone, hi.once, hi.moved, hi.named, hi.waits, hi.paired, hi.ready,
        hi.passing⟩

/-- A connection without a name may go. -/
theorem Inv.erase (hi : s.Inv) (hc : ⟨p, c⟩ ∈ s.held)
    (hname : ∀ side id, (s.waiting side).lookup id ≠ some c.key) : Inv { s with
      held := s.held.eraseP fun x => x.place = p && x.conn.key = c.key
      closed := c :: s.closed } := by
  have hsub : ∀ x ∈ s.held.eraseP fun x => x.place = p && x.conn.key = c.key, x ∈ s.held :=
    fun x hx => List.mem_of_mem_eraseP hx
  have hmates : ∀ {a b : ConnKey}, Mates s.held s.nextKey a b →
      Mates (s.held.eraseP fun x => x.place = p && x.conn.key = c.key) s.nextKey a b :=
    fun hm => ⟨fun x hx => hm.left x (hsub x hx), fun x hx => hm.right x (hsub x hx), hm.old⟩
  refine ⟨?_, fun x hx => hi.old x (hsub x hx), ?_, ?_, fun x hx => hi.moved x (hsub x hx), ?_,
    fun x hx => hi.waits x (hsub x hx), ?_, fun pair hpair => hmates (hi.ready pair hpair),
    fun src dst id again hd => hmates (hi.passing src dst id again hd)⟩
  · exact hi.distinct.sublist (List.eraseP_sublist.map _)
  · intro d hd
    rcases List.mem_cons.mp hd with rfl | hd
    · exact ⟨hi.old _ hc, fun x hx => hi.distinct.eraseP_ne hc hx⟩
    · obtain ⟨hold, hother⟩ := hi.gone d hd
      exact ⟨hold, fun x hx => hother x (hsub x hx)⟩
  · refine List.nodup_cons.mpr ⟨fun hmem => ?_, hi.once⟩
    obtain ⟨d, hd, hkey⟩ := List.mem_map.mp hmem
    exact (hi.gone d hd).2 _ hc hkey.symm
  · intro side id k hk
    obtain ⟨x, hx, hplace, hkey, hrest⟩ := hi.named side id k hk
    refine ⟨x, (List.mem_eraseP_of_neg ?_).mpr hx, hplace, hkey, hrest⟩
    intro htest
    simp only [Bool.and_eq_true, decide_eq_true_eq] at htest
    rw [← hkey, htest.2] at hk
    exact hname side id hk
  · intro x hx hmode
    obtain ⟨hold, hpairs⟩ := hi.paired x (hsub x hx) hmode
    exact ⟨hold, fun y hy => hpairs y (hsub y hy)⟩

/-- A dead connection, or one that waits for nothing, is forgotten with its
name. -/
theorem Inv.forget (hi : s.Inv) (hc : ⟨.loop, c⟩ ∈ s.held)
    (hdead : c.dead = true ∨ c.mode = .splice) :
    (s.forget c).Inv ∧ ∀ side id, ((s.forget c).waiting side).lookup id ≠ some c.key := by
  have hplain : c.mode ≠ .relayWaiting →
      ∀ side id, (s.waiting side).lookup id ≠ some c.key := by
    intro hmode side id hname
    exact hmode (hi.named_eq hname hc rfl).2.1
  unfold Rendezvous.forget
  cases hmode : c.mode with
  | new => exact ⟨hi, hplain (by rw [hmode]; decide)⟩
  | splice => exact ⟨hi, hplain (by rw [hmode]; decide)⟩
  | control =>
      exact ⟨hi.calms (Calms.of_held rfl rfl rfl rfl rfl rfl rfl rfl), hplain (by rw [hmode]; decide)⟩
  | relayWaiting =>
      cases hside : c.relaySide with
      | none =>
          refine ⟨hi, fun side id hname => ?_⟩
          have hnamed := (hi.named_eq hname hc rfl).2.2.1
          rw [hside] at hnamed
          cases hnamed
      | some side =>
          dsimp only
          split
          · rename_i hmine
            refine ⟨hi.unwait fun x hx _ hlive hsame => ?_, fun side' id hname => ?_⟩
            · obtain rfl := hi.distinct.eq hx hc (Option.some.inj (hsame.symm.trans hmine))
              rcases hdead with hdead | hsplice
              · rw [hdead] at hlive
                cases hlive
              · rw [hsplice] at hmode
                cases hmode
            · rw [lookup_unwait] at hname
              split at hname
              · cases hname
              · rename_i hother
                obtain ⟨-, -, hside', hid⟩ := hi.named_eq hname hc rfl
                exact hother ⟨Option.some.inj (hside'.symm.trans hside), hid.symm⟩
          · rename_i hother
            refine ⟨hi, fun side' id hname => hother ?_⟩
            obtain ⟨-, -, hside', hid⟩ := hi.named_eq hname hc rfl
            rw [hside] at hside'
            rw [Option.some.inj hside', hid]
            exact hname

/-- What closing a connection leaves alone. -/
structure Leaves (s s' : Rendezvous) : Prop where
  held : s'.held = s.held
  cfg : s'.cfg = s.cfg
  closed : s'.closed = s.closed
  nextKey : s'.nextKey = s.nextKey
  doing : s'.doing = s.doing

theorem Leaves.trans (h : Leaves s s') (h' : Leaves s' s'') : Leaves s s'' :=
  ⟨h'.held.trans h.held, h'.cfg.trans h.cfg, h'.closed.trans h.closed, h'.nextKey.trans h.nextKey,
    h'.doing.trans h.doing⟩

theorem leaves_forget (s : Rendezvous) (c : Conn) : Leaves s (s.forget c) := by
  unfold Rendezvous.forget
  cases c.mode with
  | new => exact ⟨rfl, rfl, rfl, rfl, rfl⟩
  | splice => exact ⟨rfl, rfl, rfl, rfl, rfl⟩
  | control => exact ⟨rfl, rfl, rfl, rfl, rfl⟩
  | relayWaiting =>
      cases c.relaySide with
      | none => exact ⟨rfl, rfl, rfl, rfl, rfl⟩
      | some side =>
          dsimp only
          split
          · exact ⟨rfl, rfl, rfl, rfl, rfl⟩
          · exact ⟨rfl, rfl, rfl, rfl, rfl⟩

theorem leaves_release (s : Rendezvous) (ip : Vector UInt8 16) :
    Leaves s (s.release ip) ∧ (s.release ip).service = s.service := by
  unfold Rendezvous.release
  cases s.perIp.lookup ip with
  | none => exact ⟨⟨rfl, rfl, rfl, rfl, rfl⟩, rfl⟩
  | some n => exact ⟨⟨rfl, rfl, rfl, rfl, rfl⟩, rfl⟩

theorem perIp_forget (s : Rendezvous) (c : Conn) : (s.forget c).perIp = s.perIp := by
  unfold Rendezvous.forget
  cases c.mode with
  | new => rfl
  | splice => rfl
  | control => rfl
  | relayWaiting =>
      cases c.relaySide with
      | none => rfl
      | some side =>
          dsimp only
          split
          · rfl
          · rfl

theorem waiting_release (s : Rendezvous) (ip : Vector UInt8 16) :
    (s.release ip).waiting = s.waiting := by
  unfold Rendezvous.release
  cases s.perIp.lookup ip with
  | none => rfl
  | some n => rfl

/-- What the loop closes is dead or a leg. -/
theorem closes_leg (h : ¬ (!c.dead && !s.orphan .loop c) = true) :
    c.dead = true ∨ c.mode = .splice := by
  cases hdead : c.dead with
  | true => exact .inl rfl
  | false =>
      have horphan : s.orphan .loop c = true := by
        by_contra hnot
        exact h (by rw [hdead, Bool.eq_false_of_not_eq_true hnot]; rfl)
      simp only [orphan, Bool.and_eq_true] at horphan
      exact .inr (by simpa using horphan.1.1.1)

/-- Closing keeps the invariant, on the loop and on a worker. -/
theorem Inv.close (hi : s.Inv) (t : Thread) (key : ConnKey) : (s.close t key).Inv := by
  unfold Rendezvous.close
  cases hfind : s.find t.place key with
  | none => exact hi
  | some c =>
      obtain ⟨hc, rfl⟩ := mem_of_find hfind
      dsimp only
      split
      · exact hi
      · rename_i hgoes
        have hnames : (if t = .loop then s.forget c else s).Inv ∧
            ∀ side id, ((if t = .loop then s.forget c else s).waiting side).lookup id ≠
              some c.key := by
          cases t with
          | loop =>
              rw [if_pos rfl]
              exact hi.forget hc (closes_leg hgoes)
          | worker i =>
              rw [if_neg Thread.noConfusion]
              refine ⟨hi, fun side id hname => ?_⟩
              exact Place.noConfusion (hi.named_eq hname hc rfl).1
        have hreleased := hnames.1.release c.ip
        refine hreleased.erase ?_ fun side id => ?_
        · rw [(leaves_release _ c.ip).1.held]
          split
          · rw [(leaves_forget s c).held]
            exact hc
          · exact hc
        · rw [waiting_release]
          exact hnames.2 side id

end UConnect.Server.Rendezvous
