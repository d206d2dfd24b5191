/-
  Server/ConfigEntries.lean --- what a mapping sets.

  Source: server/config.cpp, `set_field`, `apply_node` and `apply_config`.

  `apply_node` recurses into sections; what it does when nothing goes wrong is
  to set the values of the mapping one after another, each under the path of its
  key.  The last value set under a path is what the row has in the end
  (`setAll_last`).
-/
import UConnect.Server.ConfigValues
import UConnect.Server.YamlBlocks

set_option autoImplicit false

namespace UConnect.Server

open UConnect.Foundation UConnect.Crypto UConnect.Wire

/-! ## Rows and their paths

A path belongs to one row. -/

theorem mem_schema (s : Setting) : s ∈ schema := by
  cases s <;> decide

theorem findField_path (s : Setting) : findField s.path = some s := by
  have hall : ∀ s ∈ schema, findField s.path = some s := by decide +kernel
  exact hall s (mem_schema s)

theorem path_of_findField {path : Bytes} {s : Setting} (h : findField path = some s) :
    s.path = path :=
  of_decide_eq_true (List.find?_some (p := fun s : Setting => decide (s.path = path)) h)

theorem path_injective {s s' : Setting} (h : s.path = s'.path) : s = s' := by
  have hfind := findField_path s
  rw [h, findField_path s'] at hfind
  exact (Option.some.inj hfind).symm

/-! ## Setting one row

When it succeeds, and what it leaves of the other rows. -/

/-- The row has the value that the text stands for. -/
def Holds (s : Setting) (text : Bytes) (c : RendezvousConfig) : Prop :=
  if s.kind = .text then c.bindHost = text else parseValue s text = some (s.get c)

/-- The value of the row is one that the schema allows. -/
def Within (s : Setting) (c : RendezvousConfig) : Prop :=
  s.kind ≠ .text → s.lo ≤ s.get c ∧ s.get c ≤ s.hi

/-- The row has the same value in both. -/
def Same (s : Setting) (c c' : RendezvousConfig) : Prop :=
  s.get c' = s.get c ∧ (s.kind = .text → c'.bindHost = c.bindHost)

section Rows

variable {s s' : Setting} {c c' c'' : RendezvousConfig} {text v : Bytes}

theorem Same.refl (s : Setting) (c : RendezvousConfig) : Same s c c := ⟨rfl, fun _ => rfl⟩

theorem Same.trans (h : Same s c c') (h' : Same s c' c'') : Same s c c'' :=
  ⟨h'.1.trans h.1, fun htext => (h'.2 htext).trans (h.2 htext)⟩

theorem Holds.same (h : Holds s text c) (hsame : Same s c c') : Holds s text c' := by
  unfold Holds at h ⊢
  split
  · rename_i htext
    rw [if_pos htext] at h
    rw [hsame.2 htext, h]
  · rename_i htext
    rw [if_neg htext] at h
    rw [hsame.1, h]

theorem Within.same (h : Within s c) (hsame : Same s c c') : Within s c' := by
  intro htext
  rw [hsame.1]
  exact h htext

theorem text_unique (h : s.kind = .text) (h' : s'.kind = .text) : s = s' := by
  have hbind : ∀ s : Setting, s.kind = .text → s = .bind := by
    intro s hs
    cases s <;> first | rfl | cases hs
  rw [hbind s h, hbind s' h']

/-- What `in_range` lets pass. -/
theorem inRange_none_iff {v : Nat} : inRange s v = none ↔ s.lo ≤ v ∧ v ≤ s.hi := by
  constructor
  · intro h
    unfold inRange at h
    split at h
    · cases h
    · rename_i hlo
      split at h
      · cases h
      · rename_i hhi
        exact ⟨Nat.not_lt.mp hlo, Nat.not_lt.mp hhi⟩
  · rintro ⟨hlo, hhi⟩
    exact inRange_eq_none hlo hhi

/-- A row that is set has what it is set to, and no other row changes. -/
theorem setField_ok (h : setField s text c = .ok c') :
    Holds s text c' ∧ Within s c' ∧ ∀ s', s' ≠ s → Same s' c c' := by
  unfold setField at h
  split at h
  · rename_i htext
    cases h
    refine ⟨?_, fun hne => absurd htext hne, fun s' hne => ⟨get_bindHost c text, ?_⟩⟩
    · rw [Holds, if_pos htext]
    · intro htext'
      exact absurd (text_unique htext' htext) hne
  · rename_i htext
    split at h
    · cases h
    · rename_i v hparse
      split at h
      · cases h
      · rename_i hrange
        cases h
        obtain ⟨hlo, hhi⟩ := inRange_none_iff.mp hrange
        have hget : s.get (s.set c v) = v := get_set_self c htext hhi
        refine ⟨?_, fun _ => ?_, fun s' hne => ⟨get_set_ne c hne, fun _ => bindHost_set c⟩⟩
        · rw [Holds, if_neg htext, hparse, hget]
        · rw [hget]
          exact ⟨hlo, hhi⟩

end Rows

/-! ## Setting one after another

The last value under a path stands. -/

/-- Each of the values is set under its path; `none` if one is refused. -/
def setAll : List (Bytes × Bytes) → RendezvousConfig → Option RendezvousConfig
  | [], c => some c
  | (path, text) :: es, c =>
      match findField path with
      | none => none
      | some s =>
          match setField s text c with
          | .error _ => none
          | .ok c => setAll es c

/-- The last value under a path. -/
def lastOf (es : List (Bytes × Bytes)) (path : Bytes) : Option Bytes := es.reverse.lookup path

section Entries

variable {es es' : List (Bytes × Bytes)} {c c' : RendezvousConfig} {path text : Bytes}

theorem lastOf_cons (e : Bytes × Bytes) (es : List (Bytes × Bytes)) (path : Bytes) :
    lastOf (e :: es) path = (lastOf es path).or (if path = e.1 then some e.2 else none) := by
  obtain ⟨p, v⟩ := e
  rw [lastOf, List.reverse_cons, List.lookup_append, List.lookup_cons]
  rcases Decidable.em (path = p) with hp | hp
  · simp [hp, lastOf]
  · simp [hp, beq_eq_false_iff_ne.mpr hp, lastOf]

theorem lastOf_append (es es' : List (Bytes × Bytes)) (path : Bytes) :
    lastOf (es ++ es') path = (lastOf es' path).or (lastOf es path) := by
  rw [lastOf, List.reverse_append, List.lookup_append]
  rfl

theorem mem_of_lastOf (h : lastOf es path = some text) : (path, text) ∈ es := by
  obtain ⟨es₁, es₂, hes, -⟩ := List.lookup_eq_some_iff.mp h
  rw [← List.mem_reverse, hes]
  exact List.mem_append_right _ List.mem_cons_self

theorem lastOf_none (h : lastOf es path = none) : ∀ e ∈ es, e.1 ≠ path := by
  intro e he heq
  have hne := List.lookup_eq_none_iff.mp h e (List.mem_reverse.mpr he)
  rw [heq, bne_self_eq_false] at hne
  cases hne

theorem setAll_cons (h : setAll ((path, text) :: es) c = some c') :
    ∃ s c₁, s.path = path ∧ setField s text c = .ok c₁ ∧ setAll es c₁ = some c' := by
  rw [setAll] at h
  split at h
  · cases h
  · rename_i s hfind
    split at h
    · cases h
    · rename_i c₁ hset
      exact ⟨s, c₁, path_of_findField hfind, hset, h⟩

theorem setAll_append (es es' : List (Bytes × Bytes)) (c : RendezvousConfig) :
    setAll (es ++ es') c = (setAll es c).bind (setAll es') := by
  induction es generalizing c with
  | nil => rfl
  | cons e es ih =>
      obtain ⟨path, text⟩ := e
      rw [List.cons_append, setAll, setAll]
      split
      · rfl
      · split
        · rfl
        · exact ih _

/-- In the end a row has the last value that is set under its path, or what it
had. -/
theorem setAll_last {es : List (Bytes × Bytes)} {c c' : RendezvousConfig}
    (h : setAll es c = some c') (s : Setting) :
    match lastOf es s.path with
    | some text => Holds s text c' ∧ Within s c'
    | none => Same s c c' := by
  induction es generalizing c with
  | nil =>
      cases h
      exact Same.refl s _
  | cons e es ih =>
      obtain ⟨path, text⟩ := e
      obtain ⟨s₁, c₁, rfl, hset, hrest⟩ := setAll_cons h
      obtain ⟨hholds, hwithin, hothers⟩ := setField_ok hset
      have hlast := ih hrest
      rw [lastOf_cons]
      cases hes : lastOf es s.path with
      | some text' =>
          rw [hes] at hlast
          exact hlast
      | none =>
          rw [hes] at hlast
          rw [Option.none_or]
          rcases Decidable.em (s = s₁) with rfl | hne
          · rw [if_pos rfl]
            exact ⟨hholds.same hlast, hwithin.same hlast⟩
          · rw [if_neg fun hpath => hne (path_injective hpath)]
            exact (hothers s hne).trans hlast

end Entries

/-! ## Mappings

A mapping sets what its entries set, under their paths, and refuses if one of
them is refused. -/

namespace YamlMap

variable {α : Type}

/-- Each value of a mapping, with the path of its key. -/
def entries (above : Bytes) : YamlMap α → List (Bytes × Bytes)
  | .nil => []
  | .scalar _ k v r => (joinPath above k, v) :: r.entries above
  | .nested _ k b r => b.entries (joinPath above k) ++ r.entries above

/-- Mappings are where the schema has sections. -/
def Sectioned (above : Bytes) : YamlMap α → Prop
  | .nil => True
  | .scalar _ _ _ r => r.Sectioned above
  | .nested _ k b r =>
      (findField (joinPath above k) = none ∧ isSection (joinPath above k) = true) ∧
        b.Sectioned (joinPath above k) ∧ r.Sectioned above

theorem entries_forget (m : YamlMap α) (above : Bytes) :
    m.forget.entries above = m.entries above := by
  induction m generalizing above with
  | nil => rfl
  | scalar _ k v r ih => rw [forget, entries, entries, ih]
  | nested _ k b r ihb ih => rw [forget, entries, entries, ihb, ih]

theorem sectioned_forget (m : YamlMap α) (above : Bytes) :
    m.forget.Sectioned above ↔ m.Sectioned above := by
  induction m generalizing above with
  | nil => exact Iff.rfl
  | scalar _ k v r ih => exact ih above
  | nested _ k b r ihb ih => exact and_congr Iff.rfl (and_congr (ihb _) (ih above))

end YamlMap

/-- A mapping is applied exactly when its sections are where they belong and its
values can be set. -/
theorem applyNode_iff (m : YamlMap Nat) (above : Bytes) (c c' : RendezvousConfig) :
    applyNode above m c = (none, c') ↔
      m.Sectioned above ∧ setAll (m.entries above) c = some c' := by
  induction m generalizing above c c' with
  | nil =>
      rw [applyNode, YamlMap.entries, setAll, Prod.mk.injEq, Option.some.injEq]
      exact and_congr (iff_of_true rfl trivial) Iff.rfl
  | scalar line k v r ih =>
      rw [applyNode, YamlMap.entries, setAll, YamlMap.Sectioned]
      cases hfind : findField (joinPath above k) with
      | some s =>
          simp only
          cases hset : setField s v c with
          | error why => simp
          | ok c₁ => exact ih _ _ _
      | none =>
          simp only
          split <;> simp
  | nested line k b r ihb ih =>
      rw [applyNode, YamlMap.entries, YamlMap.Sectioned, setAll_append]
      split
      · rename_i hfind
        simp [hfind]
      · rename_i hfind
        split
        · rename_i hsection
          cases hbody : applyNode (joinPath above k) b c with
          | mk e c₁ =>
              cases e with
              | some e =>
                  -- the mapping beneath cannot be applied
                  simp only [Prod.mk.injEq, reduceCtorEq, false_and, false_iff]
                  rintro ⟨⟨-, hb, -⟩, hset⟩
                  obtain ⟨c₂, hset₂, -⟩ := Option.bind_eq_some_iff.mp hset
                  have happly := (ihb _ c c₂).mpr ⟨hb, hset₂⟩
                  rw [hbody] at happly
                  cases happly
              | none =>
                  obtain ⟨hb, hset⟩ := (ihb _ c c₁).mp hbody
                  simp only [hset, Option.bind_some]
                  rw [ih]
                  constructor
                  · rintro ⟨hr, hrest⟩
                    exact ⟨⟨⟨hfind, hsection⟩, hb, hr⟩, hrest⟩
                  · rintro ⟨⟨-, -, hr⟩, hrest⟩
                    exact ⟨hr, hrest⟩
        · rename_i hsection
          simp [hsection]

/-- What `apply_config` accepts, and what comes of it. -/
theorem applyConfig_ok_iff (yaml : Bytes) (cfg : RendezvousConfig) (error : Bytes)
    (r : RendezvousConfig) :
    ((applyConfig yaml cfg error).ok = true ∧ (applyConfig yaml cfg error).value = r) ↔
      ∃ m, parseYaml yaml = .ok m ∧ m.Sectioned [] ∧ setAll (m.entries []) cfg = some r := by
  unfold applyConfig
  cases hparse : parseYaml yaml with
  | error e => simp
  | ok m =>
      simp only [Except.ok.injEq, exists_eq_left']
      rw [← applyNode_iff]
      cases happly : applyNode [] m cfg with
      | mk e c' => cases e <;> simp

/-- An `apply_config` that fails changes nothing. -/
theorem applyConfig_failed {yaml : Bytes} {cfg : RendezvousConfig} {error : Bytes}
    (h : (applyConfig yaml cfg error).ok = false) : (applyConfig yaml cfg error).value = cfg := by
  unfold applyConfig at h ⊢
  split
  · rfl
  · rename_i m hparse
    simp only [hparse] at h
    split
    · rfl
    · rename_i happly
      rw [happly] at h
      cases h

end UConnect.Server
