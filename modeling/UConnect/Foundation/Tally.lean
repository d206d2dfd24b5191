/-
  Foundation/Tally.lean --- counting the entries of a finite map.

  `tally m p` is the number of entries of `m` that `p` selects.  What a program
  counts one by one, as entries come and go, is compared with it: how the number
  changes when an entry is written or erased, when two selections agree or a
  part of the map is taken, and how it splits over the values of a key.
-/
import Mathlib.Data.List.AList
import Mathlib.Algebra.BigOperators.Group.List.Basic
import Mathlib.Algebra.GroupWithZero.Nat

set_option autoImplicit false

namespace UConnect.Foundation

variable {κ ν : Type} [DecidableEq κ]

/-- How many entries `p` selects. -/
def tally (m : AList fun _ : κ => ν) (p : κ → ν → Bool) : Nat :=
  m.entries.countP fun e => p e.1 e.2

section Tally

variable (m : AList fun _ : κ => ν) (k : κ) (v : ν) (p : κ → ν → Bool)

omit [DecidableEq κ] in
@[simp] theorem tally_empty : tally (∅ : AList fun _ : κ => ν) p = 0 := rfl

omit [DecidableEq κ] in
theorem tally_true : tally m (fun _ _ => true) = m.entries.length := congrFun List.countP_true _

/-- An entry is counted once. -/
theorem tally_erase_add :
    tally (m.erase k) p + (if (m.lookup k).any (p k) then 1 else 0) = tally m p := by
  cases hlook : m.lookup k with
  | none =>
      have hsame : (m.erase k).entries = m.entries :=
        List.kerase_of_notMem_keys (AList.lookup_eq_none.mp hlook)
      unfold tally
      rw [hsame]
      simp
  | some v =>
      have hkeys : k ∈ m.entries.keys := List.mem_keys_of_mem (AList.mem_lookup_iff.mp hlook)
      obtain ⟨w, l₁, l₂, hnot, hsplit, herase⟩ := List.exists_of_kerase hkeys
      have hw : w = v := by
        have hmem : (⟨k, w⟩ : Σ _ : κ, ν) ∈ m.entries := by
          rw [hsplit]
          exact List.mem_append_right _ List.mem_cons_self
        have hlook' : m.lookup k = some w := AList.mem_lookup_iff.mpr hmem
        exact Option.some.inj (hlook'.symm.trans hlook)
      have hentries : (m.erase k).entries = l₁ ++ l₂ := herase
      unfold tally
      rw [hentries, hsplit, hw, List.countP_append, List.countP_append, List.countP_cons,
        Option.any_some, Nat.add_assoc]

theorem tally_insert :
    tally (m.insert k v) p = tally (m.erase k) p + (if p k v then 1 else 0) :=
  List.countP_cons

/-- A new entry is one more. -/
theorem tally_insert_new (hnew : m.lookup k = none) :
    tally (m.insert k v) p = tally m p + (if p k v then 1 else 0) := by
  have herase := tally_erase_add m k p
  rw [hnew, Option.any_none] at herase
  rw [tally_insert, ← herase]
  rfl

variable {m k v p}

/-- An entry is written over that `p` does not tell from the old one. -/
theorem tally_insert_same {v' : ν} (hold : m.lookup k = some v') (hsame : p k v = p k v') :
    tally (m.insert k v) p = tally m p := by
  have herase := tally_erase_add m k p
  rw [hold, Option.any_some, ← hsame] at herase
  rw [tally_insert, herase]

theorem tally_congr {q : κ → ν → Bool}
    (h : ∀ k v, m.lookup k = some v → p k v = q k v) : tally m p = tally m q := by
  refine List.countP_congr fun e he => ?_
  rw [h e.1 e.2 (AList.mem_lookup_iff.mpr he)]

/-- Two maps with the same lookups have the same tallies. -/
theorem tally_of_lookup {m' : AList fun _ : κ => ν} (h : ∀ k, m'.lookup k = m.lookup k) :
    tally m' p = tally m p := by
  have hperm : m'.entries.Perm m.entries := by
    refine (List.perm_ext_iff_of_nodup m'.nodupKeys.nodup m.nodupKeys.nodup).mpr ?_
    rintro ⟨k, v⟩
    rw [← AList.mem_lookup_iff, ← AList.mem_lookup_iff, h k]
  exact hperm.countP_eq _

theorem tally_pos : 0 < tally m p ↔ ∃ k v, m.lookup k = some v ∧ p k v = true := by
  unfold tally
  rw [List.countP_pos_iff]
  constructor
  · rintro ⟨⟨k, v⟩, hmem, hp⟩
    exact ⟨k, v, AList.mem_lookup_iff.mpr hmem, hp⟩
  · rintro ⟨k, v, hlook, hp⟩
    exact ⟨⟨k, v⟩, AList.mem_lookup_iff.mp hlook, hp⟩

theorem tally_eq_zero (h : ∀ k v, m.lookup k = some v → p k v = false) : tally m p = 0 := by
  refine Nat.eq_zero_of_not_pos fun hpos => ?_
  obtain ⟨k, v, hlook, hp⟩ := tally_pos.mp hpos
  rw [h k v hlook] at hp
  cases hp

omit [DecidableEq κ] in
theorem tally_le_length : tally m p ≤ m.entries.length := List.countP_le_length

/-- A map whose keys all occur in another is no longer than it. -/
theorem length_le_of_lookup {ν' : Type} {m' : AList fun _ : κ => ν'}
    (h : ∀ k, (m'.lookup k).isSome → (m.lookup k).isSome) :
    m'.entries.length ≤ m.entries.length := by
  have hkeys : m'.keys ⊆ m.keys := by
    intro k hk
    have hin := h k (AList.lookup_isSome.mpr hk)
    exact AList.lookup_isSome.mp hin
  have hle := (List.subperm_of_subset m'.keys_nodup hkeys).length_le
  simpa [AList.keys, List.keys] using hle

theorem length_insert_new (hnew : m.lookup k = none) :
    (m.insert k v).entries.length = m.entries.length + 1 := by
  have hsame : (m.erase k).entries = m.entries :=
    List.kerase_of_notMem_keys (AList.lookup_eq_none.mp hnew)
  show (m.erase k).entries.length + 1 = m.entries.length + 1
  rw [hsame]

end Tally

/-! ## A part of a map

The entries with a property, as a map again. -/

section Part

variable (m : AList fun _ : κ => ν) (s : κ → Bool)

/-- The entries whose keys `s` selects. -/
def part : AList fun _ : κ => ν where
  entries := m.entries.filter fun e => s e.1
  nodupKeys := m.nodupKeys.sublist List.filter_sublist

theorem lookup_part (k : κ) : (part m s).lookup k = if s k then m.lookup k else none := by
  have hmem : ∀ v, (part m s).lookup k = some v ↔ m.lookup k = some v ∧ s k = true := by
    intro v
    rw [← Option.mem_def, AList.mem_lookup_iff, ← Option.mem_def, AList.mem_lookup_iff]
    exact List.mem_filter
  refine Option.ext fun v => ?_
  rw [hmem]
  cases s k <;> simp

omit [DecidableEq κ] in
theorem tally_part_le (p : κ → ν → Bool) : tally (part m s) p ≤ tally m p :=
  List.filter_sublist.countP_le

end Part

/-! ## By the value of a key

A number counted by a key, summed over all values of the key, is the number of
all. -/

section Fibers

variable {ι α : Type} [DecidableEq ι]

/-- Among different keys one is `a`, if it is there. -/
theorem sum_indicator {ks : List ι} (hnodup : ks.Nodup) (a : ι) :
    (ks.map fun i => if a = i then 1 else 0).sum = if a ∈ ks then 1 else 0 := by
  induction ks with
  | nil => rfl
  | cons i ks ih =>
      obtain ⟨hnot, hnodup⟩ := List.nodup_cons.mp hnodup
      rw [List.map_cons, List.sum_cons, ih hnodup]
      rcases Decidable.em (a = i) with rfl | hne
      · simp [hnot]
      · simp [hne]

theorem sum_countP_fiber (f : α → ι) (p : α → Bool) {ks : List ι} (hnodup : ks.Nodup) {l : List α}
    (hkeys : ∀ e ∈ l, p e = true → f e ∈ ks) :
    (ks.map fun i => l.countP fun e => p e && decide (f e = i)).sum = l.countP p := by
  induction l with
  | nil => simp
  | cons e l ih =>
      have hrest := ih fun e' he' => hkeys e' (List.mem_cons_of_mem _ he')
      simp only [List.countP_cons, List.sum_map_add, hrest]
      cases hp : p e with
      | false => simp
      | true =>
          have hin := hkeys e List.mem_cons_self hp
          have hone := sum_indicator hnodup (f e)
          rw [if_pos hin] at hone
          simp only [Bool.true_and, decide_eq_true_eq, hone, if_true]

/-- A tally splits over the keys that occur. -/
theorem sum_tally_fiber (m : AList fun _ : κ => ν) (f : ν → ι) (p : κ → ν → Bool) {ks : List ι}
    (hnodup : ks.Nodup) (hkeys : ∀ k v, m.lookup k = some v → p k v = true → f v ∈ ks) :
    (ks.map fun i => tally m fun k v => p k v && decide (f v = i)).sum = tally m p :=
  sum_countP_fiber (fun e : Σ _ : κ, ν => f e.2) (fun e => p e.1 e.2) hnodup fun e he hp =>
    hkeys e.1 e.2 (AList.mem_lookup_iff.mpr he) hp

end Fibers

end UConnect.Foundation
