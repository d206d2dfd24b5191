/-
  Foundation/Spacing.lean --- a rate limiter for expensive requests.

  A `Gate` lets every cheap request through, and a dear one only when an
  interval has passed since the last dear one.  Whoever passes it keeps dear
  requests an interval apart, so few of them fit a span of time, and what all
  requests of a span cost together is bounded by their number and the length of
  the span.
-/
import Mathlib.Algebra.Order.BigOperators.Group.List
import Mathlib.Tactic.Linarith
import UConnect.Foundation.Run

set_option autoImplicit false

namespace UConnect.Foundation

/-! ## Times that keep their distance

How many times fit a span when any two are an interval apart, and what that says
of a sum most of whose terms are small. -/

/-- Times at least `gap` apart, each before the next. -/
def Spaced (gap : Int) (times : List Int) : Prop := times.Pairwise fun x y => x + gap ≤ y

/-- As many gaps as lie between the times of a span fit the span. -/
theorem Spaced.span {gap lo hi : Int} {times : List Int} (h : Spaced gap times)
    (hlo : ∀ t ∈ times, lo ≤ t) (hhi : ∀ t ∈ times, t ≤ hi) :
    times = [] ∨ (times.length - 1 : Int) * gap ≤ hi - lo := by
  induction times generalizing lo with
  | nil => exact Or.inl rfl
  | cons t rest ih =>
      refine Or.inr ?_
      obtain ⟨hnear, hrest⟩ := List.pairwise_cons.mp h
      have hlt := hlo t List.mem_cons_self
      have hht := hhi t List.mem_cons_self
      rcases ih hrest hnear (fun u hu => hhi u (List.mem_cons_of_mem _ hu)) with rfl | hspan
      · simp only [List.length_cons, List.length_nil]
        norm_num
        omega
      · rw [List.length_cons]
        push_cast
        linarith

/-- A sum of costs of at most `near`, but for those that reach `far`. -/
theorem sum_le_of_rare {α : Type} (cost : α → Nat) {near far : Nat} {xs : List α}
    (h : ∀ x ∈ xs, cost x ≤ near ∨ cost x ≤ far) :
    (xs.map cost).sum ≤ xs.length * near + (xs.filter (near < cost ·)).length * far := by
  induction xs with
  | nil => exact Nat.zero_le _
  | cons x xs ih =>
      have hrest := ih fun y hy => h y (List.mem_cons_of_mem _ hy)
      rw [List.map_cons, List.sum_cons, List.length_cons, Nat.succ_mul]
      rcases Nat.lt_or_ge near (cost x) with hfar | hnear
      · have hx : cost x ≤ far := (h x List.mem_cons_self).resolve_left (Nat.not_le.mpr hfar)
        rw [List.filter_cons_of_pos (by simpa using hfar), List.length_cons, Nat.succ_mul]
        omega
      · rw [List.filter_cons_of_neg (by simpa using hnear)]
        omega

/-! ## The gate

The limiter itself, one request at a time. -/

/-- Requests of at most `near` are free; one of at most `far` is let through
from `next` on, and puts it an interval ahead. -/
structure Gate where
  near : Nat
  far : Nat
  interval : Int
  next : Int
  deriving DecidableEq

namespace Gate

/-- A request the gate lets through. -/
def Admits (g : Gate) (cost : Nat) (now : Int) : Prop :=
  cost ≤ g.near ∨ (cost ≤ g.far ∧ g.next ≤ now)

/-- The gate behind a request. -/
def spend (g : Gate) (cost : Nat) (now : Int) : Gate :=
  if g.near < cost then { g with next := now + g.interval } else g

section Passes

variable {α : Type} (now : α → Int) (cost : α → Nat)

/-- Requests that the gate lets through one after the other. -/
def Passes (g : Gate) (xs : List α) : Prop :=
  AllSteps (fun g x => g.Admits (cost x) (now x)) (fun g x => g.spend (cost x) (now x)) g xs

variable {now cost} {g : Gate} {xs : List α}

theorem Passes.cost_le (h : g.Passes now cost xs) :
    ∀ x ∈ xs, cost x ≤ g.near ∨ cost x ≤ g.far := by
  induction xs generalizing g with
  | nil => exact fun x hx => absurd hx List.not_mem_nil
  | cons y xs ih =>
      have hsame : (g.spend (cost y) (now y)).near = g.near ∧
          (g.spend (cost y) (now y)).far = g.far := by
        unfold spend
        split <;> exact ⟨rfl, rfl⟩
      have hrest := ih h.2
      rw [hsame.1, hsame.2] at hrest
      intro x hx
      rcases List.mem_cons.mp hx with rfl | hx
      · exact h.1.imp_right And.left
      · exact hrest x hx

/-- Nothing dear passes before its turn, and dear requests keep the interval. -/
theorem Passes.spaced (h : g.Passes now cost xs) (hgap : 0 ≤ g.interval) :
    (∀ x ∈ xs, g.near < cost x → g.next ≤ now x) ∧
      xs.Pairwise fun x y => g.near < cost x → g.near < cost y → now x + g.interval ≤ now y := by
  induction xs generalizing g with
  | nil => exact ⟨fun x hx => absurd hx List.not_mem_nil, .nil⟩
  | cons y xs ih =>
      obtain ⟨hpass, hrest⟩ := h
      have hrest : (g.spend (cost y) (now y)).Passes now cost xs := hrest
      rcases Nat.lt_or_ge g.near (cost y) with hfar | hnear
      · have hspend : g.spend (cost y) (now y) = { g with next := now y + g.interval } :=
          if_pos hfar
        have hturn : g.next ≤ now y := (hpass.resolve_left (Nat.not_le.mpr hfar)).2
        rw [hspend] at hrest
        obtain ⟨hnext, hpairs⟩ := ih hrest hgap
        refine ⟨?_, List.pairwise_cons.mpr ⟨fun x hx _ hx' => hnext x hx hx', hpairs⟩⟩
        intro x hx hx'
        rcases List.mem_cons.mp hx with rfl | hx
        · exact hturn
        · have hlater := hnext x hx hx'
          simp only at hlater
          omega
      · have hspend : g.spend (cost y) (now y) = g := if_neg (Nat.not_lt.mpr hnear)
        rw [hspend] at hrest
        obtain ⟨hnext, hpairs⟩ := ih hrest hgap
        refine ⟨?_, List.pairwise_cons.mpr ⟨fun x _ hy' => absurd hnear (by omega), hpairs⟩⟩
        intro x hx hx'
        rcases List.mem_cons.mp hx with rfl | hx
        · exact absurd hnear (by omega)
        · exact hnext x hx hx'

/-- Dear requests keep the interval; where that is negative, time alone sees to
it. -/
theorem Passes.pairwise (h : g.Passes now cost xs) (hmono : (xs.map now).Pairwise (· ≤ ·)) :
    xs.Pairwise fun x y => g.near < cost x → g.near < cost y → now x + g.interval ≤ now y := by
  rcases Int.lt_or_le g.interval 0 with hneg | hgap
  · refine (List.pairwise_map.mp hmono).imp ?_
    intro x y hxy _ _
    omega
  · exact (h.spaced hgap).2

/-- What the requests of a span cost, whichever of them are counted. -/
theorem Passes.budget (h : g.Passes now cost xs) (hmono : (xs.map now).Pairwise (· ≤ ·))
    {ys : List α} (hys : ys.Sublist xs) {lo hi : Int} (hlo : ∀ y ∈ ys, lo ≤ now y)
    (hhi : ∀ y ∈ ys, now y ≤ hi) :
    ∃ n : Nat, (n = 0 ∨ (n - 1 : Int) * g.interval ≤ hi - lo) ∧
      (ys.map cost).sum ≤ ys.length * g.near + n * g.far := by
  refine ⟨(ys.filter (g.near < cost ·)).length, ?_, ?_⟩
  · have hpairs := ((h.pairwise hmono).sublist hys).filter (g.near < cost ·)
    have hspaced : Spaced g.interval ((ys.filter (g.near < cost ·)).map now) := by
      refine List.pairwise_map.mpr (hpairs.imp_of_mem ?_)
      intro x y hx hy hxy
      exact hxy (by simpa using (List.mem_filter.mp hx).2)
        (by simpa using (List.mem_filter.mp hy).2)
    have hbounds : ∀ t ∈ (ys.filter (g.near < cost ·)).map now, lo ≤ t ∧ t ≤ hi := by
      intro t ht
      obtain ⟨y, hy, rfl⟩ := List.mem_map.mp ht
      have hmem := (List.mem_filter.mp hy).1
      exact ⟨hlo y hmem, hhi y hmem⟩
    rcases hspaced.span (fun t ht => (hbounds t ht).1) (fun t ht => (hbounds t ht).2) with
      hnil | hspan
    · exact Or.inl (List.length_eq_zero_iff.mpr (List.map_eq_nil_iff.mp hnil))
    · rw [List.length_map] at hspan
      exact Or.inr hspan
  · exact sum_le_of_rare cost fun y hy => h.cost_le y (hys.subset hy)

end Passes

end Gate

end UConnect.Foundation
