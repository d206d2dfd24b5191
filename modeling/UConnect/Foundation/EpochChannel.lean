/-
  Foundation/EpochChannel.lean --- agreeing on one numbered channel.

  Two parties hold at most one channel each, known by its epoch, and tell each
  other about it over two reliable ordered streams.  A party that opens a
  channel takes the epoch above every one it has used, and offers it at any
  later time; an offer above everything the receiver has used opens the channel
  there as well, one for the channel the receiver holds answers it, and any
  other is dropped.  A notice that a channel is closed drops it at the receiver.

  The parties agree whenever nothing is in flight and every channel has been
  offered, provided a channel is closed only once the other party knows of it:
  after its offer was sent, or after the other party's offer for it came.
-/
import Mathlib.Data.List.Basic

set_option autoImplicit false

namespace UConnect.Foundation.EpochChannel

/-! ## The parties

A party, what it can say, and what it does on its own and on hearing something.
The two streams are lists of notes, oldest first. -/

/-- A channel as one party sees it. -/
structure Chan where
  epoch : Nat
  /-- Our offer went out. -/
  offered : Bool := false
  /-- Theirs came in. -/
  answered : Bool := false
  deriving DecidableEq

/-- One party: the highest epoch it has used, and its channel. -/
structure Party where
  high : Nat := 0
  chan : Option Chan := none
  deriving DecidableEq

/-- What one party tells the other. -/
inductive Note where
  | offer (epoch : Nat)
  | close (epoch : Nat)
  deriving DecidableEq

/-- The channel a note is about. -/
def Note.epoch : Note → Nat
  | .offer e => e
  | .close e => e

namespace Party

/-- A new channel at the next epoch. -/
def opened (p : Party) : Party :=
  { high := p.high + 1, chan := some { epoch := p.high + 1 } }

/-- The channel is dropped; its epoch stays used. -/
def dropped (p : Party) : Party := { p with chan := none }

/-- What a note does to the party that gets it. -/
def hear (p : Party) : Note → Party
  | .offer e =>
      if p.high < e then { high := e, chan := some { epoch := e, answered := true } }
      else
        match p.chan with
        | none => p
        | some c => if c.epoch = e then { p with chan := some { c with answered := true } } else p
  | .close e =>
      match p.chan with
      | none => p
      | some c => if c.epoch = e then p.dropped else p

end Party

/-- A party's own move, and what it sends. -/
inductive Act (p : Party) : Party → List Note → Prop where
  /-- A channel is opened where there is none, or over one both sides had. -/
  | «open» (h : ∀ c ∈ p.chan, c.answered = true) : Act p p.opened []
  | offer (c : Chan) (h : p.chan = some c) :
      Act p { p with chan := some { c with offered := true } } [.offer c.epoch]
  | close (c : Chan) (h : p.chan = some c) (hknown : c.offered = true ∨ c.answered = true) :
      Act p p.dropped [.close c.epoch]

/-! ## What a stream will do

An offer on the way opens a channel only if its epoch is above everything used
by the time it arrives.  `reach` is the highest epoch the receiver will have
used once the stream is read, and `Climbs` says that the offers on it come in
the order of their epochs. -/

/-- The highest epoch a party that has used `m` will have used behind the
stream. -/
def reach (m : Nat) : List Note → Nat
  | [] => m
  | .offer e :: q => reach (max m e) q
  | .close _ :: q => reach m q

/-- Read from `m` on, no offer skips an epoch and no close is ahead of its
offer. -/
def Climbs (m : Nat) : List Note → Prop
  | [] => True
  | .offer e :: q => e ≤ m + 1 ∧ Climbs (max m e) q
  | .close e :: q => e ≤ m ∧ Climbs m q

theorem le_reach (m : Nat) (q : List Note) : m ≤ reach m q := by
  induction q generalizing m with
  | nil => exact Nat.le_refl m
  | cons n q ih =>
      cases n with
      | offer e => exact Nat.le_trans (Nat.le_max_left m e) (ih _)
      | close e => exact ih m

theorem reach_mono {m m' : Nat} (h : m ≤ m') (q : List Note) : reach m q ≤ reach m' q := by
  induction q generalizing m m' with
  | nil => exact h
  | cons n q ih =>
      cases n with
      | offer e => exact ih (by omega)
      | close e => exact ih h

theorem reach_append (m : Nat) (q q' : List Note) :
    reach m (q ++ q') = reach (reach m q) q' := by
  induction q generalizing m with
  | nil => rfl
  | cons n q ih => cases n <;> exact ih _

/-- What lies beyond the start was offered on the way. -/
theorem offer_of_reach {m : Nat} {q : List Note} (h : m < reach m q) :
    .offer (reach m q) ∈ q := by
  induction q generalizing m with
  | nil => exact absurd h (Nat.lt_irrefl m)
  | cons n q ih =>
      cases n with
      | close e => exact List.mem_cons_of_mem _ (ih h)
      | offer e =>
          rcases Nat.lt_or_ge (max m e) (reach (max m e) q) with hlt | hge
          · exact List.mem_cons_of_mem _ (ih hlt)
          · have heq : reach (max m e) q = max m e := Nat.le_antisymm hge (le_reach _ _)
            have hlast : reach m (.offer e :: q) = e := by
              simp only [reach, heq] at h ⊢
              omega
            rw [hlast]
            exact List.mem_cons_self

theorem Climbs.mono {m m' : Nat} (h : m ≤ m') {q : List Note} (hq : Climbs m q) :
    Climbs m' q := by
  induction q generalizing m m' with
  | nil => trivial
  | cons n q ih =>
      cases n with
      | offer e => exact ⟨by have := hq.1; omega, ih (by omega) hq.2⟩
      | close e => exact ⟨by have := hq.1; omega, ih h hq.2⟩

theorem Climbs.append {m : Nat} {q q' : List Note} (hq : Climbs m q)
    (hq' : Climbs (reach m q) q') : Climbs m (q ++ q') := by
  induction q generalizing m with
  | nil => exact hq'
  | cons n q ih => cases n <;> exact ⟨hq.1, ih hq.2 hq'⟩

/-! ## The invariant

One direction of the channel: a party as the sender, the other as the receiver,
and the stream between them.  It is stated for one direction so that every step
is looked at twice and proved once. -/

/-- What holds of a party, the other party, and the stream from the one to the
other. -/
structure Half (x y : Party) (q : List Note) : Prop where
  /-- A channel is at the highest epoch its holder has used. -/
  current : ∀ c ∈ x.chan, c.epoch = x.high ∧ 1 ≤ x.high
  /-- Only epochs the sender has used are on the way. -/
  bounded : ∀ m ∈ q, m.epoch ≤ x.high
  climbs : Climbs y.high q
  /-- The receiver will catch up with the sender, but for a channel it cannot
  know of yet. -/
  behind : x.high ≤ reach y.high q ∨
    ∃ c, x.chan = some c ∧ c.offered = false ∧ c.answered = false ∧
      x.high ≤ reach y.high q + 1
  /-- Where the sender has no channel, the receiver has lost that epoch's as
  well, or is about to. -/
  gone : x.chan = none → x.high = 0 ∨ .close x.high ∈ q ∨
    (x.high ≤ y.high ∧ ∀ d ∈ y.chan, d.epoch ≠ x.high)
  /-- A closed channel is not held again. -/
  closed : ∀ e, .close e ∈ q → ∀ c ∈ x.chan, c.epoch ≠ e
  /-- An offer for a channel both hold has come, or is on the way. -/
  offered : ∀ c ∈ x.chan, c.offered = true → ∀ d ∈ y.chan, d.epoch = c.epoch →
    .offer c.epoch ∈ q ∨ d.answered = true
  /-- An answered channel is one the other party has used. -/
  answered : ∀ c ∈ x.chan, c.answered = true → x.high ≤ y.high

theorem Half.init : Half {} {} [] where
  current := by intro c hc; cases hc
  bounded := by intro m hm; cases hm
  climbs := trivial
  behind := Or.inl (Nat.le_refl 0)
  gone := fun _ => Or.inl rfl
  closed := by intro e he; cases he
  offered := by intro c hc; cases hc
  answered := by intro c hc; cases hc

variable {x y x' : Party} {q q' sent : List Note}

/-- The sender's own move. -/
theorem Half.act (h : Half x y q) (hact : Act x x' sent) : Half x' y (q ++ sent) := by
  cases hact with
  | «open» hopen =>
      -- the old channel, if any, was answered, so the receiver was not behind it
      have hle : x.high ≤ reach y.high q := by
        rcases h.behind with hle | ⟨c, hc, -, hc', -⟩
        · exact hle
        · have := hopen c hc
          rw [hc'] at this
          cases this
      rw [List.append_nil]
      refine ⟨?_, ?_, h.climbs, Or.inr ⟨_, rfl, rfl, rfl, ?_⟩, ?_, ?_, ?_, ?_⟩
      · intro c hc
        cases hc
        exact ⟨rfl, Nat.le_add_left 1 x.high⟩
      · intro m hm
        exact Nat.le_succ_of_le (h.bounded m hm)
      · exact Nat.succ_le_succ hle
      · intro hnone
        cases hnone
      · intro e he c hc
        cases hc
        have := h.bounded _ he
        simp only [Note.epoch] at this
        simp only
        omega
      · intro c hc hoff
        cases hc
        cases hoff
      · intro c hc hans
        cases hc
        cases hans
  | offer c hc =>
      have hcur := h.current c hc
      have hle : x.high ≤ reach y.high q + 1 := by
        rcases h.behind with hle | ⟨-, -, -, -, hle⟩ <;> omega
      refine ⟨?_, ?_, ?_, Or.inl ?_, ?_, ?_, ?_, ?_⟩
      · intro d hd
        cases hd
        exact hcur
      · intro m hm
        rcases List.mem_append.mp hm with hm | hm
        · exact h.bounded m hm
        · rw [List.mem_singleton.mp hm]
          exact Nat.le_of_eq hcur.1
      · apply h.climbs.append
        rw [hcur.1]
        exact ⟨hle, trivial⟩
      · rw [reach_append, hcur.1]
        exact Nat.le_max_right _ _
      · intro hnone
        cases hnone
      · intro e he d hd
        cases hd
        rcases List.mem_append.mp he with he | he
        · exact h.closed e he c hc
        · cases List.mem_singleton.mp he
      · intro d hd _ d' _ _
        cases hd
        exact Or.inl (List.mem_append.mpr (Or.inr List.mem_cons_self))
      · intro d hd hans
        cases hd
        exact h.answered c hc hans
  | close c hc hknown =>
      have hcur := h.current c hc
      have hle : x.high ≤ reach y.high q := by
        rcases h.behind with hle | ⟨d, hd, hoff, hans, -⟩
        · exact hle
        · rw [hc] at hd
          cases hd
          rcases hknown with hk | hk
          · rw [hoff] at hk
            cases hk
          · rw [hans] at hk
            cases hk
      refine ⟨?_, ?_, ?_, Or.inl ?_, ?_, ?_, ?_, ?_⟩
      · intro d hd
        cases hd
      · intro m hm
        rcases List.mem_append.mp hm with hm | hm
        · exact h.bounded m hm
        · rw [List.mem_singleton.mp hm]
          exact Nat.le_of_eq hcur.1
      · apply h.climbs.append
        rw [hcur.1]
        exact ⟨hle, trivial⟩
      · rw [reach_append]
        exact hle
      · intro _
        rw [hcur.1]
        exact Or.inr (Or.inl (List.mem_append.mpr (Or.inr List.mem_cons_self)))
      · intro e _ d hd
        cases hd
      · intro d hd
        cases hd
      · intro d hd
        cases hd

/-- The receiver's own move. -/
theorem Half.act_other {y' : Party} (h : Half x y q) (hact : Act y y' sent) :
    Half x y' q := by
  cases hact with
  | «open» hopen =>
      have hmono : reach y.high q ≤ reach (y.high + 1) q := reach_mono (Nat.le_succ _) q
      refine ⟨h.current, h.bounded, h.climbs.mono (Nat.le_succ _), ?_, ?_, h.closed, ?_, ?_⟩
      · rcases h.behind with hle | ⟨c, hc, hoff, hans, hle⟩
        · exact Or.inl (Nat.le_trans hle hmono)
        · exact Or.inr ⟨c, hc, hoff, hans, Nat.le_trans hle (Nat.succ_le_succ hmono)⟩
      · intro hnone
        rcases h.gone hnone with h0 | hcl | ⟨hle, -⟩
        · exact Or.inl h0
        · exact Or.inr (Or.inl hcl)
        · refine Or.inr (Or.inr ⟨Nat.le_succ_of_le hle, ?_⟩)
          intro d hd
          cases hd
          exact Nat.ne_of_gt (Nat.lt_succ_of_le hle)
      · -- the receiver came to the same epoch by itself: the offer is still on its way
        intro c hc hoff d hd heq
        cases hd
        have hcur := h.current c hc
        have hle : x.high ≤ reach y.high q := by
          rcases h.behind with hle | ⟨c', hc', hoff', -, -⟩
          · exact hle
          · rw [hc] at hc'
            cases hc'
            rw [hoff] at hoff'
            cases hoff'
        simp only at heq
        have hoffer := offer_of_reach (by omega : y.high < reach y.high q)
        have hbound : reach y.high q ≤ x.high := h.bounded _ hoffer
        rw [hcur.1, Nat.le_antisymm hle hbound]
        exact Or.inl hoffer
      · intro c hc hans
        exact Nat.le_succ_of_le (h.answered c hc hans)
  | offer d hd =>
      refine ⟨h.current, h.bounded, h.climbs, h.behind, ?_, h.closed, ?_, h.answered⟩
      · intro hnone
        rcases h.gone hnone with h0 | hcl | ⟨hle, hne⟩
        · exact Or.inl h0
        · exact Or.inr (Or.inl hcl)
        · refine Or.inr (Or.inr ⟨hle, ?_⟩)
          intro d' hd'
          cases hd'
          exact hne d hd
      · intro c hc hoff d' hd' heq
        cases hd'
        exact h.offered c hc hoff d hd heq
  | close d hd hknown =>
      refine ⟨h.current, h.bounded, h.climbs, h.behind, ?_, h.closed, ?_, h.answered⟩
      · intro hnone
        rcases h.gone hnone with h0 | hcl | ⟨hle, -⟩
        · exact Or.inl h0
        · exact Or.inr (Or.inl hcl)
        · refine Or.inr (Or.inr ⟨hle, ?_⟩)
          intro d' hd'
          cases hd'
      · intro c hc hoff d' hd'
        cases hd'

/-! ## Hearing a note

A note falls into one of five cases, by its kind and by how its epoch compares
with what the receiver holds and has used; each case has its own lemma, and the
invariant takes them from `hear_cases`. -/

section Hear

variable {p : Party} {c : Chan} {e : Nat}

/-- An offer above everything used opens its channel. -/
theorem hear_offer_new (h : p.high < e) :
    p.hear (.offer e) = { high := e, chan := some { epoch := e, answered := true } } :=
  if_pos h

/-- An offer for the channel that is held answers it. -/
theorem hear_offer_held (hc : p.chan = some c) (he : c.epoch = e) (hle : e ≤ p.high) :
    p.hear (.offer e) = { p with chan := some { c with answered := true } } := by
  rw [Party.hear, if_neg (Nat.not_lt.mpr hle), hc]
  exact if_pos he

/-- Any other offer is dropped. -/
theorem hear_offer_other (hle : e ≤ p.high) (hne : ∀ c ∈ p.chan, c.epoch ≠ e) :
    p.hear (.offer e) = p := by
  rw [Party.hear, if_neg (Nat.not_lt.mpr hle)]
  cases hp : p.chan with
  | none => rfl
  | some c => exact if_neg (hne c hp)

/-- The close of the channel that is held drops it. -/
theorem hear_close_held (hc : p.chan = some c) (he : c.epoch = e) :
    p.hear (.close e) = p.dropped := by
  rw [Party.hear, hc]
  exact if_pos he

/-- Any other close is nothing. -/
theorem hear_close_other (hne : ∀ c ∈ p.chan, c.epoch ≠ e) : p.hear (.close e) = p := by
  rw [Party.hear]
  cases hp : p.chan with
  | none => rfl
  | some c => exact if_neg (hne c hp)

/-- A party holds a given channel or does not. -/
theorem held_or_other (p : Party) (e : Nat) :
    (∃ c, p.chan = some c ∧ c.epoch = e) ∨ ∀ c ∈ p.chan, c.epoch ≠ e := by
  cases hp : p.chan with
  | none =>
      right
      intro c hc
      cases hc
  | some c =>
      rcases Decidable.em (c.epoch = e) with he | he
      · exact Or.inl ⟨c, rfl, he⟩
      · right
        intro c' hc'
        cases hc'
        exact he

end Hear

/-- What a note can do. -/
theorem hear_cases (p : Party) (m : Note) :
    (∃ e, m = .offer e ∧ p.high < e ∧
      p.hear m = { high := e, chan := some { epoch := e, answered := true } }) ∨
    (∃ c, m = .offer c.epoch ∧ p.chan = some c ∧
      p.hear m = { p with chan := some { c with answered := true } }) ∨
    (∃ c, m = .close c.epoch ∧ p.chan = some c ∧ p.hear m = p.dropped) ∨
    (p.hear m = p ∧ (∀ c ∈ p.chan, c.epoch ≠ m.epoch) ∧
      (∀ e, m = .offer e → e ≤ p.high)) := by
  cases m with
  | offer e =>
      rcases Nat.lt_or_ge p.high e with hlt | hle
      · exact Or.inl ⟨e, rfl, hlt, hear_offer_new hlt⟩
      · rcases held_or_other p e with ⟨c, hc, rfl⟩ | hne
        · exact Or.inr (Or.inl ⟨c, rfl, hc, hear_offer_held hc rfl hle⟩)
        · refine Or.inr (Or.inr (Or.inr ⟨hear_offer_other hle hne, hne, ?_⟩))
          intro e' he'
          cases he'
          exact hle
  | close e =>
      rcases held_or_other p e with ⟨c, hc, rfl⟩ | hne
      · exact Or.inr (Or.inr (Or.inl ⟨c, rfl, hc, hear_close_held hc rfl⟩))
      · refine Or.inr (Or.inr (Or.inr ⟨hear_close_other hne, hne, ?_⟩))
        intro e' he'
        cases he'

/-- The sender of one stream hears a note of the other. -/
theorem Half.hear {m : Note} (h : Half x y q) (hback : Half y x (m :: q')) :
    Half (x.hear m) y q := by
  have hbound : m.epoch ≤ y.high := hback.bounded m List.mem_cons_self
  have hreach := le_reach y.high q
  rcases hear_cases x m with ⟨e, rfl, hlt, heq⟩ | ⟨c, rfl, hc, heq⟩ | ⟨c, rfl, hc, heq⟩ |
      ⟨heq, -, -⟩ <;> rw [heq] <;> simp only [Note.epoch] at hbound
  · refine ⟨?_, ?_, h.climbs, Or.inl (Nat.le_trans hbound hreach), ?_, ?_, ?_, ?_⟩
    · intro c hc
      cases hc
      exact ⟨rfl, Nat.lt_of_le_of_lt (Nat.zero_le _) hlt⟩
    · intro m hm
      exact Nat.le_trans (h.bounded m hm) (Nat.le_of_lt hlt)
    · intro hnone
      cases hnone
    · intro e' he' c hc
      cases hc
      have hle : e' ≤ x.high := h.bounded _ he'
      exact Nat.ne_of_gt (Nat.lt_of_le_of_lt hle hlt)
    · intro c hc hoff
      cases hc
      cases hoff
    · intro c _ _
      exact hbound
  · have hcur := h.current c hc
    rw [hcur.1] at hbound
    refine ⟨?_, h.bounded, h.climbs, Or.inl (Nat.le_trans hbound hreach), ?_, ?_, ?_, ?_⟩
    · intro d hd
      cases hd
      exact hcur
    · intro hnone
      cases hnone
    · intro e he d hd
      cases hd
      exact h.closed e he c hc
    · intro d hd hoff
      cases hd
      exact h.offered c hc hoff
    · intro d _ _
      exact hbound
  · have hcur := h.current c hc
    rw [hcur.1] at hbound
    refine ⟨?_, h.bounded, h.climbs, Or.inl (Nat.le_trans hbound hreach), ?_, ?_, ?_, ?_⟩
    · intro d hd
      cases hd
    · intro _
      rw [← hcur.1] at hbound
      refine Or.inr (Or.inr ⟨?_, ?_⟩)
      · exact hcur.1 ▸ hbound
      · intro d hd
        have hne := hback.closed _ List.mem_cons_self d hd
        exact hcur.1 ▸ hne
    · intro e _ d hd
      cases hd
    · intro d hd
      cases hd
    · intro d hd
      cases hd
  · exact h

/-- The receiver hears the first note of the stream. -/
theorem Half.heard {m : Note} (h : Half x y (m :: q))
    (hcur : ∀ d ∈ y.chan, d.epoch = y.high ∧ 1 ≤ y.high) : Half x (y.hear m) q := by
  have hbounded : ∀ m' ∈ q, m'.epoch ≤ x.high := by
    intro m' hm'
    exact h.bounded m' (List.mem_cons_of_mem _ hm')
  have hclosed : ∀ e, .close e ∈ q → ∀ c ∈ x.chan, c.epoch ≠ e := by
    intro e he
    exact h.closed e (List.mem_cons_of_mem _ he)
  have hm : m.epoch ≤ x.high := h.bounded m List.mem_cons_self
  have hclimbs := h.climbs
  have hbehind := h.behind
  rcases hear_cases y m with ⟨e, rfl, hlt, heq⟩ | ⟨d, rfl, hd, heq⟩ | ⟨d, rfl, hd, heq⟩ |
      ⟨heq, hne, hle⟩ <;> rw [heq]
  · have hmax : max y.high e = e := Nat.max_eq_right (Nat.le_of_lt hlt)
    simp only [Note.epoch] at hm
    simp only [Climbs, reach, hmax] at hclimbs hbehind
    refine ⟨h.current, hbounded, hclimbs.2, hbehind, ?_, hclosed, ?_, ?_⟩
    · intro hnone
      rcases h.gone hnone with h0 | hcl | ⟨hle, -⟩
      · exact Or.inl h0
      · rcases List.mem_cons.mp hcl with hcl | hcl
        · cases hcl
        · exact Or.inr (Or.inl hcl)
      · exact absurd hm (Nat.not_le.mpr (Nat.lt_of_le_of_lt hle hlt))
    · intro c hc hoff d hd _
      cases hd
      exact Or.inr rfl
    · intro c hc hans
      exact Nat.le_trans (h.answered c hc hans) (Nat.le_of_lt hlt)
  · have hmax : max y.high d.epoch = y.high := by
      rw [(hcur d hd).1]
      exact Nat.max_self _
    simp only [Climbs, reach, hmax] at hclimbs hbehind
    refine ⟨h.current, hbounded, hclimbs.2, hbehind, ?_, hclosed, ?_, h.answered⟩
    · intro hnone
      rcases h.gone hnone with h0 | hcl | ⟨hle, hne⟩
      · exact Or.inl h0
      · rcases List.mem_cons.mp hcl with hcl | hcl
        · cases hcl
        · exact Or.inr (Or.inl hcl)
      · refine Or.inr (Or.inr ⟨hle, ?_⟩)
        intro d' hd'
        cases hd'
        exact hne d hd
    · intro c hc hoff d' hd' _
      cases hd'
      exact Or.inr rfl
  · simp only [Climbs, reach] at hclimbs hbehind
    refine ⟨h.current, hbounded, hclimbs.2, hbehind, ?_, hclosed, ?_, h.answered⟩
    · intro hnone
      rcases h.gone hnone with h0 | hcl | ⟨hle, hne⟩
      · exact Or.inl h0
      · rcases List.mem_cons.mp hcl with hcl | hcl
        · -- the close of the sender's last epoch takes the receiver's channel with it
          have hx : x.high = d.epoch := Note.close.inj hcl
          refine Or.inr (Or.inr ⟨?_, ?_⟩)
          · rw [hx]
            exact hclimbs.1
          · intro d' hd'
            cases hd'
        · exact Or.inr (Or.inl hcl)
      · refine Or.inr (Or.inr ⟨hle, ?_⟩)
        intro d' hd'
        cases hd'
    · intro c hc hoff d' hd'
      cases hd'
  · have hreach : reach y.high (m :: q) = reach y.high q := by
      cases m with
      | offer e => simp only [reach, Nat.max_eq_left (hle e rfl)]
      | close e => rfl
    have hclimbs' : Climbs y.high q := by
      cases m with
      | offer e =>
          simp only [Climbs, Nat.max_eq_left (hle e rfl)] at hclimbs
          exact hclimbs.2
      | close e => exact hclimbs.2
    rw [hreach] at hbehind
    refine ⟨h.current, hbounded, hclimbs', hbehind, ?_, hclosed, ?_, h.answered⟩
    · intro hnone
      rcases h.gone hnone with h0 | hcl | hgone
      · exact Or.inl h0
      · rcases List.mem_cons.mp hcl with hcl | hcl
        · subst hcl
          refine Or.inr (Or.inr ⟨hclimbs.1, hne⟩)
        · exact Or.inr (Or.inl hcl)
      · exact Or.inr (Or.inr hgone)
    · intro c hc hoff d hd heq'
      rcases h.offered c hc hoff d hd heq' with hoffer | hans
      · rcases List.mem_cons.mp hoffer with hoffer | hoffer
        · subst hoffer
          exact absurd heq' (hne d hd)
        · exact Or.inl hoffer
      · exact Or.inr hans

/-! ## Both directions

The two halves, and what they come to when both streams are empty. -/

/-- The invariant of the two parties and the two streams between them. -/
structure Joined (x y : Party) (q q' : List Note) : Prop where
  out : Half x y q
  back : Half y x q'

theorem Joined.init : Joined {} {} [] [] := ⟨Half.init, Half.init⟩

theorem Joined.symm (h : Joined x y q q') : Joined y x q' q := ⟨h.back, h.out⟩

/-- A party's own move keeps the invariant. -/
theorem Joined.act (h : Joined x y q q') (hact : Act x x' sent) :
    Joined x' y (q ++ sent) q' :=
  ⟨h.out.act hact, h.back.act_other hact⟩

/-- Hearing the first note of a stream keeps the invariant. -/
theorem Joined.hear {m : Note} (h : Joined x y q (m :: q')) : Joined (x.hear m) y q q' :=
  ⟨h.out.hear h.back, h.back.heard h.out.current⟩

/-- With nothing in flight, a party that has offered its channel is not ahead of
the other. -/
theorem Half.high_le (h : Half x y []) (hoff : ∀ c ∈ x.chan, c.offered = true) :
    x.high ≤ y.high := by
  rcases h.behind with hle | ⟨c, hc, hoff', -, -⟩
  · exact hle
  · rw [hoff c hc] at hoff'
    cases hoff'

/-- With nothing in flight, only one party cannot hold a channel. -/
theorem Half.chan_none (h : Half x y []) (hback : Half y x [])
    (hoff : ∀ d ∈ y.chan, d.offered = true) (hx : x.chan = none) : y.chan = none := by
  cases hy : y.chan with
  | none => rfl
  | some d =>
      have hd := hback.current d hy
      have hle : x.high ≤ y.high := h.high_le (by intro c hc; rw [hx] at hc; cases hc)
      have hge : y.high ≤ x.high := hback.high_le hoff
      rcases h.gone hx with h0 | hcl | ⟨-, hne⟩
      · omega
      · cases hcl
      · exact absurd (by omega) (hne d hy)

/-- The parties agree once nothing is in flight and every channel was offered. -/
theorem Joined.agree (h : Joined x y [] []) (hx : ∀ c ∈ x.chan, c.offered = true)
    (hy : ∀ d ∈ y.chan, d.offered = true) :
    (x.chan = none ∧ y.chan = none) ∨
      ∃ c d, x.chan = some c ∧ y.chan = some d ∧ c.epoch = d.epoch ∧
        c.answered = true ∧ d.answered = true := by
  cases hxc : x.chan with
  | none => exact Or.inl ⟨rfl, h.out.chan_none h.back hy hxc⟩
  | some c =>
      cases hyc : y.chan with
      | none =>
          have hnone := h.back.chan_none h.out hx hyc
          rw [hxc] at hnone
          cases hnone
      | some d =>
          have hle := h.out.high_le hx
          have hge := h.back.high_le hy
          have heq : c.epoch = d.epoch := by
            rw [(h.out.current c hxc).1, (h.back.current d hyc).1]
            exact Nat.le_antisymm hle hge
          refine Or.inr ⟨c, d, rfl, rfl, heq, ?_, ?_⟩
          · rcases h.back.offered d hyc (hy d hyc) c hxc heq with hoffer | hans
            · cases hoffer
            · exact hans
          · rcases h.out.offered c hxc (hx c hxc) d hyc heq.symm with hoffer | hans
            · cases hoffer
            · exact hans

end UConnect.Foundation.EpochChannel
