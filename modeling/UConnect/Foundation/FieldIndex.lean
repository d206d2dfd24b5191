/-
  Foundation/FieldIndex.lean --- an index over one field of many records.

  Each owner has a field that may hold a value, and an index finds the owner
  from the value.  The two are kept in step by releasing a value in both and
  taking one in both; a value can be taken only while no other owner holds it.

  Owners may also be set aside, with the values they hold: their fields are read
  as empty from then on, and the index goes on finding them until their values
  are forgotten.
-/
import Mathlib.Logic.Function.Basic
import Mathlib.Data.List.AList

set_option autoImplicit false

namespace UConnect.Foundation

variable {α ι : Type} [DecidableEq α] [DecidableEq ι]

/-- The index finds the owner of every value held and of every value set aside,
and nothing else.  What an owner holds is not also set aside for it. -/
structure Indexes (aside : ι → α → Prop) (idx : α → Option ι) (field : ι → Option α) : Prop where
  finds : ∀ a i, idx a = some i ↔ field i = some a ∨ aside i a
  apart : ∀ a i, field i = some a → ¬ aside i a

section Index

variable {aside : ι → α → Prop} {idx : α → Option ι} {field : ι → Option α} {a : α} {i : ι}

omit [DecidableEq α] [DecidableEq ι] in
theorem indexes_empty (hempty : ∀ i a, ¬ aside i a) :
    Indexes aside (fun _ : α => (none : Option ι)) fun _ => none where
  finds a i := ⟨nofun, fun h => h.elim nofun fun haside => absurd haside (hempty i a)⟩
  apart _ _ := nofun

omit [DecidableEq α] [DecidableEq ι] in
/-- Only the set of values that are set aside matters. -/
theorem Indexes.congr_aside {aside' : ι → α → Prop} (h : Indexes aside idx field)
    (hsame : ∀ i a, aside' i a ↔ aside i a) : Indexes aside' idx field where
  finds a i := by
    rw [hsame]
    exact h.finds a i
  apart a i hi := by
    rw [hsame]
    exact h.apart a i hi

omit [DecidableEq α] [DecidableEq ι] in
theorem Indexes.find (h : Indexes aside idx field) (hi : field i = some a) : idx a = some i :=
  (h.finds a i).mpr (Or.inl hi)

omit [DecidableEq α] [DecidableEq ι] in
theorem Indexes.find_aside (h : Indexes aside idx field) (hi : aside i a) : idx a = some i :=
  (h.finds a i).mpr (Or.inr hi)

omit [DecidableEq α] [DecidableEq ι] in
/-- Two owners never hold one value. -/
theorem Indexes.owner_unique (h : Indexes aside idx field) {j : ι} (hi : field i = some a)
    (hj : field j = some a) : i = j := by
  have hij := (h.find hi).symm.trans (h.find hj)
  exact Option.some.inj hij

omit [DecidableEq α] [DecidableEq ι] in
/-- A value that an owner holds is set aside for no owner. -/
theorem Indexes.not_aside (h : Indexes aside idx field) (hi : field i = some a) (j : ι) :
    ¬ aside j a := by
  intro hj
  have hij : i = j := Option.some.inj ((h.find hi).symm.trans (h.find_aside hj))
  subst hij
  exact h.apart a i hi hj

/-- The owner of a value gives it up. -/
theorem Indexes.release (h : Indexes aside idx field) (ha : field i = some a) :
    Indexes aside (Function.update idx a none) (Function.update field i none) where
  finds b j := by
    rcases Decidable.em (b = a) with hb | hb
    · subst hb
      rw [Function.update_self]
      refine ⟨nofun, ?_⟩
      rintro (hj | hj)
      · rcases Decidable.em (j = i) with hji | hji
        · subst hji
          rw [Function.update_self] at hj
          cases hj
        · rw [Function.update_of_ne hji] at hj
          exact absurd (h.owner_unique hj ha) hji
      · exact absurd hj (h.not_aside ha j)
    · rw [Function.update_of_ne hb]
      rcases Decidable.em (j = i) with hji | hji
      · subst hji
        rw [Function.update_self, h.finds b j, ha]
        refine or_congr_left ⟨fun hab => ?_, nofun⟩
        exact absurd (Option.some.inj hab).symm hb
      · rw [Function.update_of_ne hji]
        exact h.finds b j
  apart b j hj := by
    rcases Decidable.em (j = i) with hji | hji
    · subst hji
      rw [Function.update_self] at hj
      cases hj
    · rw [Function.update_of_ne hji] at hj
      exact h.apart b j hj

/-- An owner without a value takes one that is free. -/
theorem Indexes.take (h : Indexes aside idx field) (hi : field i = none)
    (ha : ∀ j, idx a ≠ some j) :
    Indexes aside (Function.update idx a (some i)) (Function.update field i (some a)) where
  finds b j := by
    rcases Decidable.em (b = a) with hb | hb
    · subst hb
      rw [Function.update_self]
      rcases Decidable.em (j = i) with hji | hji
      · subst hji
        rw [Function.update_self]
        exact iff_of_true rfl (Or.inl rfl)
      · rw [Function.update_of_ne hji]
        refine iff_of_false (fun hij => hji (Option.some.inj hij).symm) ?_
        exact fun hj => ha j ((h.finds b j).mpr hj)
    · rw [Function.update_of_ne hb]
      rcases Decidable.em (j = i) with hji | hji
      · subst hji
        rw [Function.update_self, h.finds b j, hi]
        exact or_congr_left ⟨nofun, fun hab => absurd (Option.some.inj hab).symm hb⟩
      · rw [Function.update_of_ne hji]
        exact h.finds b j
  apart b j hj haside := by
    rcases Decidable.em (j = i) with hji | hji
    · subst hji
      rw [Function.update_self] at hj
      cases hj
      exact ha j (h.find_aside haside)
    · rw [Function.update_of_ne hji] at hj
      exact h.apart b j hj haside

omit [DecidableEq α] [DecidableEq ι] in
/-- Some owners are set aside, with what they hold. -/
theorem Indexes.setAside (h : Indexes aside idx field) (p : ι → Prop) [DecidablePred p] :
    Indexes (fun i a => aside i a ∨ (p i ∧ field i = some a)) idx
      fun i => if p i then none else field i where
  finds a i := by
    rw [h.finds]
    rcases Decidable.em (p i) with hp | hp
    · simp only [hp, if_true, true_and, reduceCtorEq, false_or]
      exact or_comm
    · simp only [hp, if_false, false_and, or_false]
  apart a i hi := by
    rcases Decidable.em (p i) with hp | hp
    · rw [if_pos hp] at hi
      cases hi
    · rw [if_neg hp] at hi
      rintro (haside | ⟨hp', -⟩)
      · exact h.apart a i hi haside
      · exact hp hp'

omit [DecidableEq α] [DecidableEq ι] in
/-- Values that are set aside are forgotten. -/
theorem Indexes.forget {gone : ι → α → Prop} {idx' : α → Option ι} (h : Indexes aside idx field)
    (hgone : ∀ i a, gone i a → aside i a)
    (hidx : ∀ a i, idx' a = some i ↔ idx a = some i ∧ ∀ j, ¬ gone j a) :
    Indexes (fun i a => aside i a ∧ ¬ gone i a) idx' field where
  finds a i := by
    rw [hidx, h.finds]
    refine ⟨?_, ?_⟩
    · rintro ⟨hi | hi, hkept⟩
      · exact Or.inl hi
      · exact Or.inr ⟨hi, hkept i⟩
    · rintro (hi | ⟨hi, hkept⟩)
      · exact ⟨Or.inl hi, fun j hj => h.not_aside hi j (hgone j a hj)⟩
      · refine ⟨Or.inr hi, fun j hj => hkept ?_⟩
        have hij := (h.find_aside hi).symm.trans (h.find_aside (hgone j a hj))
        rw [Option.some.inj hij]
        exact hj
  apart a i hi haside := h.apart a i hi haside.1

end Index

/-! ## Association lists as functions

`Indexes` speaks of functions; the tables of a program are association lists,
and an insertion or an erasure of one is an update of the other. -/

section Lookup

variable {β : Type} (s : AList fun _ : α => β)

theorem lookup_insert_update (a : α) (b : β) :
    (fun x => (s.insert a b).lookup x) = Function.update (fun x => s.lookup x) a (some b) := by
  funext x
  rcases Decidable.em (x = a) with hx | hx
  · subst hx
    rw [Function.update_self, AList.lookup_insert]
  · rw [Function.update_of_ne hx, AList.lookup_insert_ne hx]

theorem lookup_erase_update (a : α) :
    (fun x => (s.erase a).lookup x) = Function.update (fun x => s.lookup x) a none := by
  funext x
  rcases Decidable.em (x = a) with hx | hx
  · subst hx
    rw [Function.update_self, AList.lookup_erase]
  · rw [Function.update_of_ne hx, AList.lookup_erase_ne hx]

end Lookup

end UConnect.Foundation
