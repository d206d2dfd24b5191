/-
  Foundation/Run.lean --- runs of a deterministic state machine.

  A component is a state type, an operation type and a step function; a run
  applies a list of operations in order.  What the development needs of runs is
  collected here once: how they compose, the invariant rule, the invariant rule
  for runs all of whose steps meet a side condition, and the rules for what a
  run emits on the way and for what it puts in a queue.
-/
import Mathlib.Data.List.Basic

set_option autoImplicit false

namespace UConnect.Foundation

variable {σ ο : Type}

/-- The state reached by applying `ops` in order. -/
def run (step : σ → ο → σ) (s : σ) (ops : List ο) : σ :=
  ops.foldl step s

@[simp] theorem run_nil (step : σ → ο → σ) (s : σ) : run step s [] = s := rfl

@[simp] theorem run_cons (step : σ → ο → σ) (s : σ) (o : ο) (ops : List ο) :
    run step s (o :: ops) = run step (step s o) ops := rfl

theorem run_append (step : σ → ο → σ) (s : σ) (xs ys : List ο) :
    run step s (xs ++ ys) = run step (run step s xs) ys :=
  List.foldl_append

/-- What every step keeps, every run keeps. -/
theorem run_invariant {step : σ → ο → σ} {I : σ → Prop}
    (hstep : ∀ s o, I s → I (step s o)) {s : σ} (hs : I s) (ops : List ο) :
    I (run step s ops) := by
  induction ops generalizing s with
  | nil => exact hs
  | cons o ops ih => exact ih (hstep s o hs)

/-- Every step of the run meets `C`, read in the state before the step. -/
def AllSteps (C : σ → ο → Prop) (step : σ → ο → σ) : σ → List ο → Prop
  | _, [] => True
  | s, o :: ops => C s o ∧ AllSteps C step (step s o) ops

instance AllSteps.decidable {C : σ → ο → Prop} [∀ s o, Decidable (C s o)]
    (step : σ → ο → σ) : ∀ (s : σ) (ops : List ο), Decidable (AllSteps C step s ops)
  | _, [] => .isTrue trivial
  | s, o :: ops =>
      have := AllSteps.decidable (C := C) step (step s o) ops
      inferInstanceAs (Decidable (C s o ∧ AllSteps C step (step s o) ops))

/-- A condition on operations alone. -/
theorem allSteps_of_forall {step : σ → ο → σ} {C : ο → Prop} {ops : List ο}
    (h : ∀ o ∈ ops, C o) (s : σ) : AllSteps (fun _ o => C o) step s ops := by
  induction ops generalizing s with
  | nil => trivial
  | cons o ops ih =>
      exact ⟨h o List.mem_cons_self, ih (fun o' ho' => h o' (List.mem_cons_of_mem _ ho')) _⟩

theorem AllSteps.mono {step : σ → ο → σ} {C D : σ → ο → Prop} {s : σ} {ops : List ο}
    (hCD : ∀ s o, C s o → D s o) (h : AllSteps C step s ops) : AllSteps D step s ops := by
  induction ops generalizing s with
  | nil => trivial
  | cons o ops ih => exact ⟨hCD s o h.1, ih h.2⟩

theorem allSteps_append {step : σ → ο → σ} {C : σ → ο → Prop} {s : σ} {xs ys : List ο} :
    AllSteps C step s (xs ++ ys) ↔
      AllSteps C step s xs ∧ AllSteps C step (run step s xs) ys := by
  induction xs generalizing s with
  | nil => exact ⟨fun h => ⟨trivial, h⟩, fun h => h.2⟩
  | cons o xs ih =>
      rw [List.cons_append, AllSteps, ih, run_cons, ← and_assoc]
      rfl

/-- What every step that meets `C` keeps, every run of such steps keeps. -/
theorem run_invariant_of_allSteps {step : σ → ο → σ} {I : σ → Prop} {C : σ → ο → Prop}
    (hstep : ∀ s o, C s o → I s → I (step s o)) {s : σ} (hs : I s) (ops : List ο)
    (hall : AllSteps C step s ops) : I (run step s ops) := by
  induction ops generalizing s with
  | nil => exact hs
  | cons o ops ih => exact ih (hstep s o hall.1 hs) hall.2

/-- What does not hold before a run and holds after it, some step of the run
brings about. -/
theorem run_turns {step : σ → ο → σ} {Q : σ → Prop} {s : σ} {ops : List ο} (hs : ¬ Q s)
    (hrun : Q (run step s ops)) :
    ∃ xs o ys, ops = xs ++ o :: ys ∧ ¬ Q (run step s xs) ∧ Q (run step s (xs ++ [o])) := by
  induction ops generalizing s with
  | nil => exact absurd hrun hs
  | cons o ops ih =>
      by_cases hstep : Q (step s o)
      · exact ⟨[], o, ops, rfl, hs, hstep⟩
      · obtain ⟨xs, o', ys, rfl, hbefore, hafter⟩ := ih hstep hrun
        exact ⟨o :: xs, o', ys, rfl, hbefore, hafter⟩

/-! ## What a run emits

Outputs that a step returns, in order.  The rules carry a fact about one step to
the whole trace, with an invariant or with a quantity that only grows. -/

section Trace

variable {ε : Type}

/-- What the steps of a run emit, in order. -/
def trace (emit : σ → ο → List ε) (step : σ → ο → σ) : σ → List ο → List ε
  | _, [] => []
  | s, o :: ops => emit s o ++ trace emit step (step s o) ops

variable {emit : σ → ο → List ε} {step : σ → ο → σ} {I : σ → Prop}

theorem trace_append (emit : σ → ο → List ε) (step : σ → ο → σ) (s : σ) (xs ys : List ο) :
    trace emit step s (xs ++ ys) =
      trace emit step s xs ++ trace emit step (run step s xs) ys := by
  induction xs generalizing s with
  | nil => rfl
  | cons o xs ih =>
      rw [List.cons_append, trace, ih, trace, run_cons, List.append_assoc]

/-- What every step carries on, with what it emits, every run carries on. -/
theorem trace_carried {C : σ → List ε → Prop}
    (hstep : ∀ s o es, C s es → C (step s o) (es ++ emit s o)) {s : σ} {es : List ε}
    (h : C s es) (ops : List ο) :
    C (run step s ops) (es ++ trace emit step s ops) := by
  induction ops generalizing s es with
  | nil =>
      rw [trace, List.append_nil]
      exact h
  | cons o ops ih =>
      rw [trace, ← List.append_assoc]
      exact ih (hstep s o es h)

/-- What every step emits from a state of the invariant, every run emits. -/
theorem trace_forall {Q : ε → Prop} (hstep : ∀ s o, I s → I (step s o))
    (hemit : ∀ s o, I s → ∀ x ∈ emit s o, Q x) {s : σ} (hs : I s) (ops : List ο) :
    ∀ x ∈ trace emit step s ops, Q x := by
  induction ops generalizing s with
  | nil => exact fun x hx => absurd hx List.not_mem_nil
  | cons o ops ih =>
      intro x hx
      rcases List.mem_append.mp hx with hx | hx
      · exact hemit s o hs x hx
      · exact ih (hstep s o hs) x hx

/-- Emissions related in order.  `B s x` says that `x` may come at or after `s`;
what a step emits is related to all that may come after it. -/
theorem trace_pairwise {R : ε → ε → Prop} {B : σ → ε → Prop} (hstep : ∀ s o, I s → I (step s o))
    (hback : ∀ s o x, I s → B (step s o) x → B s x)
    (hemit : ∀ s o, I s → ∀ x ∈ emit s o, B s x ∧ ∀ y, B (step s o) y → R x y)
    (hsorted : ∀ s o, I s → (emit s o).Pairwise R) {s : σ} (hs : I s) (ops : List ο) :
    (trace emit step s ops).Pairwise R ∧ ∀ x ∈ trace emit step s ops, B s x := by
  induction ops generalizing s with
  | nil => exact ⟨.nil, fun x hx => absurd hx List.not_mem_nil⟩
  | cons o ops ih =>
      obtain ⟨hrest, hlow⟩ := ih (hstep s o hs)
      refine ⟨List.pairwise_append.mpr ⟨hsorted s o hs, hrest, ?_⟩, ?_⟩
      · intro x hx y hy
        exact (hemit s o hs x hx).2 y (hlow y hy)
      · intro x hx
        rcases List.mem_append.mp hx with hx | hx
        · exact (hemit s o hs x hx).1
        · exact hback s o x hs (hlow x hx)

/-- Keys that every step takes from between its two marks increase along a run. -/
theorem trace_increasing (key : ε → Nat) (mark : σ → Nat) (hstep : ∀ s o, I s → I (step s o))
    (hmark : ∀ s o, I s → mark s ≤ mark (step s o))
    (hemit : ∀ s o, I s → ∀ x ∈ emit s o, mark s ≤ key x ∧ key x < mark (step s o))
    (hsorted : ∀ s o, I s → (emit s o).Pairwise (key · < key ·)) {s : σ} (hs : I s)
    (ops : List ο) : (trace emit step s ops).Pairwise (key · < key ·) := by
  refine (trace_pairwise (B := fun s x => mark s ≤ key x) hstep ?_ ?_ hsorted hs ops).1
  · intro s o x hs hx
    exact Nat.le_trans (hmark s o hs) hx
  · intro s o hs x hx
    obtain ⟨hlow, hhigh⟩ := hemit s o hs x hx
    exact ⟨hlow, fun y hy => Nat.lt_of_lt_of_le hhigh hy⟩

/-! ## What a run has put in a queue

Where a queue is emptied by the steps themselves, what was ever put into it is
what the run has handed out together with what is left. -/

variable {queue : σ → List ε}

/-- Everything a queue has held over a run: what the steps handed out of it,
then what is still in it. -/
def ledger (emit : σ → ο → List ε) (queue : σ → List ε) (step : σ → ο → σ) (s : σ)
    (ops : List ο) : List ε :=
  trace emit step s ops ++ queue (run step s ops)

theorem ledger_cons (s : σ) (o : ο) (ops : List ο) :
    ledger emit queue step s (o :: ops) = emit s o ++ ledger emit queue step (step s o) ops := by
  rw [ledger, trace, run_cons, List.append_assoc]
  rfl

theorem ledger_append (s : σ) (xs ys : List ο) :
    ledger emit queue step s (xs ++ ys) =
      trace emit step s xs ++ ledger emit queue step (run step s xs) ys := by
  rw [ledger, trace_append, run_append, List.append_assoc]
  rfl

/-- What each step adds to the queue, a run adds: `A s es t` says that `es` may
be added on the way from `s` to `t`. -/
theorem ledger_grows {A : σ → List ε → σ → Prop} (hnil : ∀ s, A s [] s)
    (happend : ∀ {s t u xs ys}, A s xs t → A t ys u → A s (xs ++ ys) u)
    (hstep : ∀ s o, ∃ es, emit s o ++ queue (step s o) = queue s ++ es ∧ A s es (step s o))
    (s : σ) (ops : List ο) :
    ∃ es, ledger emit queue step s ops = queue s ++ es ∧ A s es (run step s ops) := by
  induction ops generalizing s with
  | nil => exact ⟨[], (List.append_nil _).symm, hnil s⟩
  | cons o ops ih =>
      obtain ⟨es, hes, hA⟩ := hstep s o
      obtain ⟨es', hes', hA'⟩ := ih (step s o)
      refine ⟨es ++ es', ?_, happend hA hA'⟩
      rw [ledger_cons, hes', ← List.append_assoc, hes, List.append_assoc]

end Trace

end UConnect.Foundation
