/-
  Foundation/TieBreak.lean --- crossing proposals between two parties.

  Each party holds at most one token.  A party without one may make one and
  propose it to the other over a reliable ordered stream, and a party may give
  its token up at any time.  The senior party takes a proposal only while it
  holds nothing; the junior one takes every proposal.  A party without a token
  may also refuse.

  `Settled` says that whatever the senior party holds or can still come to hold
  is what the junior party will hold in the end.
-/
import Mathlib.Data.List.Basic

set_option autoImplicit false

namespace UConnect.Foundation.TieBreak

variable {α : Type}

/-- The two parties and the proposals between them. -/
structure Pair (α : Type) where
  senior : Option α := none
  junior : Option α := none
  toJunior : List α := []
  toSenior : List α := []

namespace Pair

/-- What the senior party holds, or may come to hold from what is in flight. -/
def SeniorEnds (p : Pair α) (x : α) : Prop :=
  p.senior = some x ∨ (p.senior = none ∧ x ∈ p.toSenior)

/-- What the junior party will hold once nothing is in flight to it. -/
def juniorEnd (p : Pair α) : Option α := p.toJunior.getLast?.or p.junior

/-- The parties are going to agree. -/
def Settled (p : Pair α) : Prop := ∀ x y, p.SeniorEnds x → p.juniorEnd = some y → x = y

/-- The junior party may propose: its proposal is bound to lose against one that
is on its way, or it meets an empty field. -/
def MayPropose (p : Pair α) : Prop :=
  (p.toJunior ≠ [] ∧ p.senior.isSome = true) ∨
    (p.toJunior = [] ∧ p.senior = none ∧ p.toSenior = [])

/-- The senior party may give up: what is on its way to it is what the junior
party will hold. -/
def MayGiveUp (p : Pair α) : Prop := ∀ x ∈ p.toSenior, ∀ y, p.juniorEnd = some y → x = y

theorem settled_init : Settled ({} : Pair α) := by
  intro x y _ hy
  cases hy

variable {p : Pair α} {x y : α}

/-- The senior party makes a token and proposes it. -/
theorem settled_senior_proposes (x : α) (p : Pair α) :
    Settled { p with senior := some x, toJunior := p.toJunior ++ [x] } := by
  intro x' y hx hy
  rw [juniorEnd, List.getLast?_concat] at hy
  cases hy
  rcases hx with hx | ⟨hx, -⟩
  · cases hx
    rfl
  · cases hx

/-- The junior party makes a token and proposes it. -/
theorem Settled.junior_proposes (h : Settled p) (hmay : MayPropose p) (y : α) :
    Settled { p with junior := some y, toSenior := p.toSenior ++ [y] } := by
  intro x y' hx hy'
  rcases hmay with ⟨hne, hsome⟩ | ⟨hempty, hnone, hnothing⟩
  · -- the proposal in flight to the junior party overrides the new token
    have hend : p.juniorEnd = some y' := by
      rw [juniorEnd, List.getLast?_eq_some_getLast hne] at hy' ⊢
      exact hy'
    rcases hx with hx | ⟨hx, -⟩
    · exact h x y' (Or.inl hx) hend
    · rw [show p.senior = none from hx] at hsome
      cases hsome
  · simp only [juniorEnd, hempty, List.getLast?_nil, Option.none_or] at hy'
    cases hy'
    rcases hx with hx | ⟨-, hx⟩
    · rw [show p.senior = some x from hx] at hnone
      cases hnone
    · simpa [hnothing] using hx

/-- A proposal reaches a senior party that has a token, or that refuses it. -/
theorem Settled.senior_drops {rest : List α} (h : Settled p) (hq : p.toSenior = x :: rest) :
    Settled { p with toSenior := rest } := by
  intro x' y hx hy
  rcases hx with hx | ⟨hx, hmem⟩
  · exact h x' y (Or.inl hx) hy
  · exact h x' y (Or.inr ⟨hx, hq ▸ List.mem_cons_of_mem _ hmem⟩) hy

/-- A proposal reaches a senior party without a token. -/
theorem Settled.senior_takes {rest : List α} (h : Settled p) (hq : p.toSenior = x :: rest)
    (hnone : p.senior = none) : Settled { p with senior := some x, toSenior := rest } := by
  intro x' y hx hy
  rcases hx with hx | ⟨hx, -⟩
  · cases hx
    exact h x y (Or.inr ⟨hnone, hq ▸ List.mem_cons_self⟩) hy
  · cases hx

/-- A proposal reaches the junior party. -/
theorem Settled.junior_takes {rest : List α} (h : Settled p) (hq : p.toJunior = y :: rest) :
    Settled { p with junior := some y, toJunior := rest } := by
  intro x y' hx hy'
  apply h x y' hx
  rw [← hy', juniorEnd, juniorEnd, hq]
  cases rest with
  | nil => rfl
  | cons z zs => simp [List.getLast?_eq_some_getLast]

/-- A proposal reaches a junior party without a token, and is refused. -/
theorem Settled.junior_refuses {rest : List α} (h : Settled p) (hq : p.toJunior = y :: rest)
    (hnone : p.junior = none) : Settled { p with toJunior := rest } := by
  intro x y' hx hy'
  cases rest with
  | nil =>
      simp only [juniorEnd, List.getLast?_nil, hnone] at hy'
      cases hy'
  | cons z zs =>
      apply h x y' hx
      rw [← hy', juniorEnd, juniorEnd, hq]
      simp [List.getLast?_eq_some_getLast]

/-- The junior party gives up. -/
theorem Settled.junior_gives_up (h : Settled p) : Settled { p with junior := none } := by
  intro x y hx hy
  cases hq : p.toJunior.getLast? with
  | none =>
      simp only [juniorEnd, hq] at hy
      cases hy
  | some z =>
      apply h x y hx
      simp only [juniorEnd, hq] at hy ⊢
      exact hy

/-- The senior party gives up. -/
theorem settled_senior_gives_up (hmay : MayGiveUp p) : Settled { p with senior := none } := by
  intro x y hx hy
  rcases hx with hx | ⟨-, hx⟩
  · cases hx
  · exact hmay x hx y hy

/-- With nothing in flight, two parties that both hold a token hold the same. -/
theorem Settled.agree (h : Settled p) (hq : p.toJunior = []) (hx : p.senior = some x)
    (hy : p.junior = some y) : x = y := by
  apply h x y (Or.inl hx)
  rw [juniorEnd, hq]
  exact hy

end Pair

end UConnect.Foundation.TieBreak
