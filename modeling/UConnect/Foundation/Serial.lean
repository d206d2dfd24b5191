/-
  Foundation/Serial.lean --- numbers drawn from a counter that wraps.

  A counter of `w` values gives out its value and counts one further, round and
  round.  A number that has been given out is told from the next one by how many
  draws lie between them, so a number comes again only when all `w` have been
  given out.
-/
import Mathlib.Data.Nat.Basic

set_option autoImplicit false

namespace UConnect.Foundation

/-- `t` is one of the last `drawn` numbers of a counter that stands at `next`. -/
def Drawn (w next drawn t : Nat) : Prop :=
  t < w ∧ ∃ k, 0 < k ∧ k ≤ drawn ∧ (t + k) % w = next

section Drawn

variable {w next drawn t : Nat}

/-- The number given out. -/
theorem Drawn.last (h : next < w) (drawn : Nat) : Drawn w ((next + 1) % w) (drawn + 1) next :=
  ⟨h, 1, Nat.one_pos, Nat.le_add_left 1 drawn, rfl⟩

/-- What has been given out before stays given out. -/
theorem Drawn.earlier (h : Drawn w next drawn t) : Drawn w ((next + 1) % w) (drawn + 1) t := by
  obtain ⟨ht, k, hpos, hle, rfl⟩ := h
  refine ⟨ht, k + 1, Nat.succ_pos k, Nat.succ_le_succ hle, ?_⟩
  rw [Nat.mod_add_mod, Nat.add_assoc]

/-- Before the counter has come round, the next number is new. -/
theorem Drawn.ne_next (h : Drawn w next drawn t) (hroom : drawn < w) : t ≠ next := by
  obtain ⟨ht, k, hpos, hle, hk⟩ := h
  rintro rfl
  have hlt : k < w := Nat.lt_of_le_of_lt hle hroom
  rcases Nat.lt_or_ge (t + k) w with hsum | hsum
  · rw [Nat.mod_eq_of_lt hsum] at hk
    omega
  · rw [Nat.mod_eq_sub_mod hsum, Nat.mod_eq_of_lt (by omega)] at hk
    omega

end Drawn

end UConnect.Foundation
