/-
  Foundation/SwapList.lean --- a list with a position index.

  Members live in a list, and an index maps each one to its place.  Adding
  appends; removing overwrites the place of the removed member with the last one
  and drops the tail, so both cost one step.  `Indexed` is the invariant that
  ties the two together: it makes the list free of duplicates and the index
  exactly its members.
-/
import Mathlib.Data.List.AList
import Mathlib.Data.List.Nodup

set_option autoImplicit false

namespace UConnect.Foundation

variable {α : Type} [DecidableEq α]

/-- The index maps each member to its place and has no other key. -/
def Indexed (members : List α) (pos : AList fun _ : α => Nat) : Prop :=
  ∀ a i, pos.lookup a = some i ↔ members[i]? = some a

theorem indexed_nil : Indexed ([] : List α) ∅ := by
  intro a i
  simp [AList.lookup_empty]

theorem Indexed.mem_iff {members : List α} {pos : AList fun _ : α => Nat}
    (h : Indexed members pos) (a : α) : a ∈ members ↔ a ∈ pos := by
  rw [← AList.lookup_isSome, Option.isSome_iff_exists, List.mem_iff_getElem?]
  exact exists_congr fun i => (h a i).symm

/-- One key has one place, so the list repeats nothing. -/
theorem Indexed.nodup {members : List α} {pos : AList fun _ : α => Nat}
    (h : Indexed members pos) : members.Nodup := by
  rw [List.nodup_iff_getElem?_ne_getElem?]
  intro i j hij hj heq
  obtain ⟨a, ha⟩ : ∃ a, members[j]? = some a := ⟨_, List.getElem?_eq_getElem hj⟩
  have hi := (h a i).mpr (by rw [heq]; exact ha)
  have hj' := (h a j).mpr ha
  rw [hi] at hj'
  exact Nat.ne_of_lt hij (Option.some.inj hj')

/-- Appending a new member under the next free place keeps the index. -/
theorem Indexed.push {members : List α} {pos : AList fun _ : α => Nat} {a : α}
    (h : Indexed members pos) (ha : a ∉ members) :
    Indexed (members ++ [a]) (pos.insert a members.length) := by
  intro b i
  by_cases hb : b = a
  · subst hb
    rw [AList.lookup_insert, Option.some.injEq]
    constructor
    · rintro rfl
      simp
    · intro hi
      by_contra hne
      have hlt : i < members.length := by
        have := (List.getElem?_eq_some_iff.mp hi).1
        simp only [List.length_append, List.length_singleton] at this
        omega
      rw [List.getElem?_append_left hlt] at hi
      exact ha (List.mem_of_getElem? hi)
  · rw [AList.lookup_insert_ne hb, h b i]
    constructor
    · intro hi
      rw [List.getElem?_append_left (List.getElem?_eq_some_iff.mp hi).1]
      exact hi
    · intro hi
      rw [List.getElem?_append] at hi
      split at hi
      · exact hi
      · have := List.mem_of_getElem? hi
        simp only [List.mem_singleton] at this
        exact absurd this hb

/-- Remove the member at `idx`: the last one takes its place, the tail goes, and
the index follows. -/
def swapPop (members : List α) (pos : AList fun _ : α => Nat) (a : α) (idx : Nat) :
    List α × AList fun _ : α => Nat :=
  let last := members.length - 1
  match members[last]? with
  | some moved =>
      if idx ≠ last then ((members.set idx moved).dropLast, (pos.insert moved idx).erase a)
      else (members.dropLast, pos.erase a)
  | none => (members, pos.erase a)

omit [DecidableEq α] in
/-- Reading the list after a removal: the vacated place holds the moved member,
and the last place is gone. -/
theorem getElem?_set_dropLast (l : List α) (idx i : Nat) (x : α) (hidx : idx < l.length - 1) :
    (l.set idx x).dropLast[i]? =
      if i = idx then some x else if i < l.length - 1 then l[i]? else none := by
  rw [List.getElem?_dropLast, List.length_set]
  by_cases hi : i < l.length - 1
  · rw [if_pos hi, List.getElem?_set]
    by_cases hii : idx = i
    · subst hii
      rw [if_pos rfl, if_pos (by omega), if_pos rfl]
    · rw [if_neg hii, if_neg (fun h => hii h.symm), if_pos hi]
  · rw [if_neg hi, if_neg (by omega), if_neg hi]

section SwapPop

variable {members : List α} {pos : AList fun _ : α => Nat} {a moved : α} {idx : Nat}

/-- A member stands in one place only. -/
theorem Indexed.place_eq (h : Indexed members pos) {i j : Nat} (hi : members[i]? = some a)
    (hj : members[j]? = some a) : i = j :=
  Option.some.inj (((h a i).mpr hi).symm.trans ((h a j).mpr hj))

/-- The last member goes. -/
theorem Indexed.pop (h : Indexed members pos) (hlast : members[members.length - 1]? = some a) :
    Indexed members.dropLast (pos.erase a) := by
  intro b i
  rw [List.getElem?_dropLast]
  by_cases hba : b = a
  · subst hba
    rw [AList.lookup_erase]
    refine iff_of_false (Option.some_ne_none i).symm fun hi => ?_
    split at hi
    · rename_i hlt
      exact absurd (h.place_eq hi hlast) (Nat.ne_of_lt hlt)
    · cases hi
  · rw [AList.lookup_erase_ne hba, h b i]
    constructor
    · intro hi
      have hne : i ≠ members.length - 1 := by
        rintro rfl
        exact hba (Option.some.inj (hi.symm.trans hlast))
      have hlt := (List.getElem?_eq_some_iff.mp hi).1
      rw [if_pos (by omega)]
      exact hi
    · intro hi
      split at hi
      · exact hi
      · cases hi

/-- The place of the last member after it has moved: where the removed one was. -/
theorem Indexed.lookup_moved (h : Indexed members pos) (hidx : members[idx]? = some a)
    (hlast : members[members.length - 1]? = some moved) (hne : idx ≠ members.length - 1) (i : Nat) :
    ((pos.insert moved idx).erase a).lookup moved = some i ↔ i = idx := by
  have hma : moved ≠ a := by
    rintro rfl
    exact hne (h.place_eq hidx hlast)
  rw [AList.lookup_erase_ne hma, AList.lookup_insert, Option.some.injEq]
  exact eq_comm

/-- The last member moves to the place of the one that goes. -/
theorem Indexed.overwrite (h : Indexed members pos) (hidx : members[idx]? = some a)
    (hlast : members[members.length - 1]? = some moved) (hne : idx ≠ members.length - 1) :
    Indexed (members.set idx moved).dropLast ((pos.insert moved idx).erase a) := by
  have hlt := (List.getElem?_eq_some_iff.mp hidx).1
  have hma : moved ≠ a := by
    rintro rfl
    exact hne (h.place_eq hidx hlast)
  intro b i
  rw [getElem?_set_dropLast _ _ _ _ (by omega)]
  by_cases hbm : b = moved
  · subst hbm
    rw [h.lookup_moved hidx hlast hne]
    split
    · rename_i hi
      exact iff_of_true hi rfl
    · rename_i hi
      refine iff_of_false hi fun hplace => ?_
      split at hplace
      · rename_i hfront
        exact absurd (h.place_eq hplace hlast) (Nat.ne_of_lt hfront)
      · cases hplace
  by_cases hba : b = a
  · -- the removed member has no place left: `idx` now holds another
    subst hba
    rw [AList.lookup_erase]
    refine iff_of_false (Option.some_ne_none i).symm fun hi => ?_
    split at hi
    · exact hma (Option.some.inj hi)
    · rename_i hii
      split at hi
      · exact hii (h.place_eq hi hidx)
      · cases hi
  · rw [AList.lookup_erase_ne hba, AList.lookup_insert_ne hbm, h b i]
    constructor
    · intro hi
      have hii : i ≠ idx := by
        rintro rfl
        exact hba (Option.some.inj (hi.symm.trans hidx))
      have hil : i ≠ members.length - 1 := by
        rintro rfl
        exact hbm (Option.some.inj (hi.symm.trans hlast))
      have hbound := (List.getElem?_eq_some_iff.mp hi).1
      rw [if_neg hii, if_pos (by omega)]
      exact hi
    · intro hi
      split at hi
      · exact absurd (Option.some.inj hi).symm hbm
      · split at hi
        · exact hi
        · cases hi

/-- What a removal does, by where the member stands. -/
theorem swapPop_eq (hlast : members[members.length - 1]? = some moved) :
    swapPop members pos a idx =
      if idx ≠ members.length - 1 then
        ((members.set idx moved).dropLast, (pos.insert moved idx).erase a)
      else (members.dropLast, pos.erase a) := by
  unfold swapPop
  simp only [hlast]

/-- Removing a member keeps the index and takes away that member only. -/
theorem Indexed.swapPop (h : Indexed members pos) (ha : pos.lookup a = some idx) :
    Indexed (swapPop members pos a idx).1 (swapPop members pos a idx).2 ∧
      ∀ b, b ∈ (swapPop members pos a idx).1 ↔ b ∈ members ∧ b ≠ a := by
  have hidx : members[idx]? = some a := (h a idx).mp ha
  have hlt : idx < members.length := (List.getElem?_eq_some_iff.mp hidx).1
  obtain ⟨moved, hlast⟩ : ∃ m, members[members.length - 1]? = some m :=
    ⟨_, List.getElem?_eq_getElem (by omega)⟩
  rw [swapPop_eq hlast]
  split
  · rename_i hne
    have hkept := h.overwrite hidx hlast hne
    have hmem : moved ∈ pos := (h.mem_iff moved).mp (List.mem_of_getElem? hlast)
    refine ⟨hkept, fun b => ?_⟩
    -- membership is read off the index, where removal is `erase`
    rw [hkept.mem_iff b, h.mem_iff b, AList.mem_erase, AList.mem_insert]
    constructor
    · rintro ⟨hba, rfl | hb⟩
      · exact ⟨hmem, hba⟩
      · exact ⟨hb, hba⟩
    · rintro ⟨hb, hba⟩
      exact ⟨hba, .inr hb⟩
  · rename_i hne
    have hkept := h.pop (not_not.mp hne ▸ hidx)
    refine ⟨hkept, fun b => ?_⟩
    rw [hkept.mem_iff b, h.mem_iff b, AList.mem_erase]
    exact and_comm

end SwapPop

end UConnect.Foundation
