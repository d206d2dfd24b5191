/-
  Foundation/Stream.lean --- consumers of a byte stream that arrives in chunks.

  A consumer keeps a state and a buffer.  Each iteration either waits for more
  input or takes a frame off the front of the buffer and moves on; a consumer
  that has died ignores everything.  Two facts about one iteration decide how
  the whole behaves: taking a frame shrinks the buffer (so the loop ends), and
  bytes that arrive behind a frame never change what is done with it (so it does
  not matter in how many pieces the stream arrived).  `feed_flatten` is the
  conclusion.
-/
import Mathlib.Data.List.Basic

set_option autoImplicit false

namespace UConnect.Foundation

/-- A stream consumer: one iteration of its loop, and the two properties every
frame format has. -/
structure Consumer (σ β : Type) where
  /-- The consumer has ended and reads nothing more. -/
  dead : σ → Bool
  /-- One iteration: `none` waits, `some` is the next state and buffer. -/
  step : σ → List β → Option (σ × List β)
  /-- A frame that leaves the consumer alive is not empty. -/
  shrinks : ∀ {s s' : σ} {b r : List β},
    step s b = some (s', r) → dead s' = false → r.length < b.length
  /-- Bytes behind a frame do not change what is done with it. -/
  stable : ∀ {s s' : σ} {b r : List β} (x : List β), step s b = some (s', r) →
    ∃ r', step s (b ++ x) = some (s', r') ∧ (dead s' = false → r' = r ++ x)

namespace Consumer

variable {σ β : Type} (M : Consumer σ β)

/-- The loop, with a bound on its iterations. -/
def drain : Nat → σ → List β → σ × List β
  | 0, s, b => (s, b)
  | n + 1, s, b =>
      if M.dead s then (s, b)
      else
        match M.step s b with
        | none => (s, b)
        | some (s', r) => drain n s' r

/-- Append a chunk to the buffer and run the loop; as many iterations as the
buffer has bytes, and one more, are always enough. -/
def feed (p : σ × List β) (x : List β) : σ × List β :=
  if M.dead p.1 then p else M.drain ((p.2 ++ x).length + 1) p.1 (p.2 ++ x)

/-- The loop has nothing left to do. -/
def Settled (p : σ × List β) : Prop :=
  M.dead p.1 = true ∨ M.step p.1 p.2 = none

/-- Equal states, and equal buffers unless the consumer is dead. -/
def Same (p q : σ × List β) : Prop :=
  p.1 = q.1 ∧ (M.dead p.1 = false → p.2 = q.2)

variable {M}

theorem Same.refl (p : σ × List β) : M.Same p p := ⟨rfl, fun _ => rfl⟩

theorem Same.symm {p q : σ × List β} (h : M.Same p q) : M.Same q p :=
  ⟨h.1.symm, fun hd => (h.2 (by rw [h.1]; exact hd)).symm⟩

theorem Same.trans {p q r : σ × List β} (h₁ : M.Same p q) (h₂ : M.Same q r) : M.Same p r :=
  ⟨h₁.1.trans h₂.1, fun hd => (h₁.2 hd).trans (h₂.2 (by rw [← h₁.1]; exact hd))⟩

@[simp] theorem drain_zero (s : σ) (b : List β) : M.drain 0 s b = (s, b) := rfl

theorem drain_of_dead {s : σ} (h : M.dead s = true) (n : Nat) (b : List β) :
    M.drain n s b = (s, b) := by
  cases n with
  | zero => rfl
  | succ n => simp [drain, h]

theorem drain_of_wait {s : σ} {b : List β} (h : M.step s b = none) (n : Nat) :
    M.drain n s b = (s, b) := by
  cases n with
  | zero => rfl
  | succ n => simp [drain, h]

theorem drain_succ_of_step {s s' : σ} {b r : List β} (hd : M.dead s = false)
    (h : M.step s b = some (s', r)) (n : Nat) : M.drain (n + 1) s b = M.drain n s' r := by
  simp [drain, hd, h]

/-- Past one iteration per buffered byte, more fuel changes nothing. -/
theorem drain_eq_of_lt : ∀ (n m : Nat) (s : σ) (b : List β),
    b.length < n → b.length < m → M.drain n s b = M.drain m s b := by
  intro n
  induction n with
  | zero => intro m s b hn _; exact absurd hn (Nat.not_lt_zero _)
  | succ n ih =>
      intro m s b hn hm
      obtain ⟨m, rfl⟩ : ∃ k, m = k + 1 := ⟨m - 1, by omega⟩
      by_cases hd : M.dead s = true
      · rw [drain_of_dead hd, drain_of_dead hd]
      · rw [Bool.not_eq_true] at hd
        cases hs : M.step s b with
        | none => rw [drain_of_wait hs, drain_of_wait hs]
        | some p =>
            obtain ⟨s', r⟩ := p
            rw [drain_succ_of_step hd hs, drain_succ_of_step hd hs]
            by_cases hd' : M.dead s' = true
            · rw [drain_of_dead hd', drain_of_dead hd']
            · have hr := M.shrinks hs (by simpa using hd')
              exact ih m s' r (by omega) (by omega)

/-- The loop ends with nothing left to do. -/
theorem settled_drain : ∀ (n : Nat) (s : σ) (b : List β),
    b.length < n → M.Settled (M.drain n s b) := by
  intro n
  induction n with
  | zero => intro s b hn; exact absurd hn (Nat.not_lt_zero _)
  | succ n ih =>
      intro s b hn
      by_cases hd : M.dead s = true
      · rw [drain_of_dead hd]; exact .inl hd
      · rw [Bool.not_eq_true] at hd
        cases hs : M.step s b with
        | none => rw [drain_of_wait hs]; exact .inr hs
        | some p =>
            obtain ⟨s', r⟩ := p
            rw [drain_succ_of_step hd hs]
            by_cases hd' : M.dead s' = true
            · rw [drain_of_dead hd']; exact .inl hd'
            · have hr := M.shrinks hs (by simpa using hd')
              exact ih s' r (by omega)

theorem settled_feed {p : σ × List β} (x : List β) : M.Settled (M.feed p x) := by
  unfold feed
  split
  · rename_i hd; exact .inl hd
  · exact settled_drain _ _ _ (Nat.lt_succ_self _)

/-- What every iteration keeps, the loop keeps. -/
theorem drain_invariant {I : σ → List β → Prop}
    (hstep : ∀ s b s' r, M.dead s = false → I s b → M.step s b = some (s', r) → I s' r) :
    ∀ (n : Nat) (s : σ) (b : List β), I s b → I (M.drain n s b).1 (M.drain n s b).2 := by
  intro n
  induction n with
  | zero => intro s b h; exact h
  | succ n ih =>
      intro s b h
      by_cases hd : M.dead s = true
      · rw [drain_of_dead hd]; exact h
      · rw [Bool.not_eq_true] at hd
        cases hs : M.step s b with
        | none => rw [drain_of_wait hs]; exact h
        | some p =>
            obtain ⟨s', r⟩ := p
            rw [drain_succ_of_step hd hs]
            exact ih s' r (hstep s b s' r hd h hs)

/-- An invariant of the state and of all bytes still to come, buffered or not:
if taking a frame off their front keeps it, so does the arrival of a chunk. -/
theorem feed_invariant {I : σ → List β → Prop}
    (hdead : ∀ s b c, M.dead s = true → I s b → I s c)
    (hstep : ∀ s b s' r, M.dead s = false → I s b → M.step s b = some (s', r) → I s' r)
    {p : σ × List β} {x rest : List β} (h : I p.1 (p.2 ++ (x ++ rest))) :
    I (M.feed p x).1 ((M.feed p x).2 ++ rest) := by
  unfold feed
  split
  · rename_i hd
    exact hdead _ _ _ hd h
  · rw [← List.append_assoc] at h
    refine drain_invariant (I := fun s b => I s (b ++ rest)) ?_ _ _ _ h
    intro s b s' r hlive hI hs
    obtain ⟨r', hs', hr'⟩ := M.stable rest hs
    have hI' := hstep s _ s' r' hlive hI hs'
    cases hd : M.dead s' with
    | true => exact hdead _ _ _ hd hI'
    | false =>
        rw [hr' hd] at hI'
        exact hI'

/-- Draining a longer buffer is draining its front first. -/
theorem drain_append : ∀ (n : Nat) (s : σ) (b x : List β), b.length < n →
    M.Same (M.feed (M.drain n s b) x) (M.drain ((b ++ x).length + 1) s (b ++ x)) := by
  intro n
  induction n with
  | zero => intro s b x hn; exact absurd hn (Nat.not_lt_zero _)
  | succ n ih =>
      intro s b x hn
      by_cases hd : M.dead s = true
      · rw [drain_of_dead hd, drain_of_dead hd]
        exact ⟨by simp [feed, hd], fun h => by simp [feed, hd] at h⟩
      · rw [Bool.not_eq_true] at hd
        cases hs : M.step s b with
        | none =>
            rw [drain_of_wait hs]
            simp only [feed, hd]
            exact Same.refl _
        | some p =>
            obtain ⟨s', r⟩ := p
            obtain ⟨r', hs', hr'⟩ := M.stable x hs
            rw [drain_succ_of_step hd hs, drain_succ_of_step hd hs']
            by_cases hd' : M.dead s' = true
            · rw [drain_of_dead hd', drain_of_dead hd']
              exact ⟨by simp [feed, hd'], fun h => by simp [feed, hd'] at h⟩
            · rw [Bool.not_eq_true] at hd'
              have hr := M.shrinks hs hd'
              rw [hr' hd', drain_eq_of_lt _ ((r ++ x).length + 1) s' (r ++ x)
                (by simp only [List.length_append]; omega) (Nat.lt_succ_self _)]
              exact ih s' r x (by omega)

/-- Two chunks in a row are one chunk. -/
theorem feed_feed (p : σ × List β) (x y : List β) :
    M.Same (M.feed (M.feed p x) y) (M.feed p (x ++ y)) := by
  by_cases hd : M.dead p.1 = true
  · have h : ∀ z, M.feed p z = p := fun z => by simp [feed, hd]
    rw [h, h, h]
    exact Same.refl p
  · have h : ∀ z, M.feed p z = M.drain ((p.2 ++ z).length + 1) p.1 (p.2 ++ z) :=
      fun z => by simp [feed, hd]
    rw [h x, h (x ++ y), ← List.append_assoc]
    exact drain_append _ p.1 (p.2 ++ x) y (Nat.lt_succ_self _)

theorem feed_nil_of_settled {p : σ × List β} (h : M.Settled p) : M.feed p [] = p := by
  unfold feed
  split
  · rfl
  · rename_i hd
    rcases h with h | h
    · exact absurd h hd
    · rw [List.append_nil, drain_of_wait h]

/-- In how many chunks a stream arrives does not matter. -/
theorem feed_flatten {p : σ × List β} (hp : M.Settled p) (chunks : List (List β)) :
    M.Same (chunks.foldl M.feed p) (M.feed p chunks.flatten) := by
  induction chunks generalizing p with
  | nil => rw [List.flatten_nil, feed_nil_of_settled hp]; exact Same.refl p
  | cons c cs ih =>
      rw [List.foldl_cons, List.flatten_cons]
      exact (ih (settled_feed c)).trans (feed_feed p c cs.flatten)

end Consumer

end UConnect.Foundation
