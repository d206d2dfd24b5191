/-
  Server/YamlBlocks.lean --- mappings and the lines they are written on.

  Source: server/config.cpp, `parse_block` and `parse_yaml`.

  A mapping is laid out by choosing an indentation for the keys of each mapping
  in it, deeper than that of the key above.  `parse_yaml` takes a list of lines
  exactly when they are such a layout, and then returns the mapping
  (`parseLines_iff`).  A key that comes twice in a mapping, and a line that is
  at the indentation of no mapping that is open, are in no layout.
-/
import UConnect.Server.Yaml

set_option autoImplicit false

namespace UConnect.Server

open UConnect.Foundation UConnect.Crypto

/-! ## Layouts

A mapping, an indent for each mapping in it, and the lines these two give. -/

/-- A line without its number. -/
structure Outline where
  indent : Nat
  key : Bytes
  value : Option Bytes
  deriving DecidableEq, Repr

def YamlLine.outline (l : YamlLine) : Outline := ⟨l.indent, l.key, l.value⟩

namespace YamlMap

variable {α : Type}

/-- The mapping itself. -/
def forget : YamlMap α → YamlMap Unit
  | .nil => .nil
  | .scalar _ k v r => .scalar () k v r.forget
  | .nested _ k b r => .nested () k b.forget r.forget

/-- The keys of the mapping, not those beneath them. -/
def keys : YamlMap α → List Bytes
  | .nil => []
  | .scalar _ k _ r => k :: r.keys
  | .nested _ k _ r => k :: r.keys

/-- No key comes twice, here or beneath. -/
def Distinct : YamlMap α → Prop
  | .nil => True
  | .scalar _ k _ r => k ∉ r.keys ∧ r.Distinct
  | .nested _ k b r => k ∉ r.keys ∧ b.Distinct ∧ r.Distinct

/-- The lines of a mapping whose keys are at indentation `n`.  A nested mapping
is annotated with the indentation of its keys. -/
def lines (n : Nat) : YamlMap Nat → List Outline
  | .nil => []
  | .scalar _ k v r => ⟨n, k, some v⟩ :: r.lines n
  | .nested m k b r => ⟨n, k, none⟩ :: (b.lines m ++ r.lines n)

/-- Nested mappings are not empty, and are indented deeper. -/
def Fits (n : Nat) : YamlMap Nat → Prop
  | .nil => True
  | .scalar _ _ _ r => r.Fits n
  | .nested m _ b r => n < m ∧ b ≠ .nil ∧ b.Fits m ∧ r.Fits n

section Lines

variable {n : Nat} {l : YamlMap Nat} {o : Outline}

/-- The first line is the first key's. -/
theorem lines_head (h : o ∈ (l.lines n).head?) : o.indent = n := by
  cases l with
  | nil => cases h
  | scalar _ k v r =>
      cases h
      rfl
  | nested m k b r =>
      cases h
      rfl

theorem lines_ne_nil (h : l ≠ .nil) : ∃ o os, l.lines n = o :: os ∧ o.indent = n := by
  cases l with
  | nil => exact absurd rfl h
  | scalar _ k v r => exact ⟨_, _, rfl, rfl⟩
  | nested m k b r => exact ⟨_, _, rfl, rfl⟩

/-- A line is a key of the mapping, or indented deeper. -/
theorem mem_lines (hfits : l.Fits n) (h : o ∈ l.lines n) :
    (o.indent = n ∧ o.key ∈ l.keys) ∨ n < o.indent := by
  induction l generalizing n with
  | nil => cases h
  | scalar _ k v r ih =>
      rcases List.mem_cons.mp h with rfl | h
      · exact Or.inl ⟨rfl, List.mem_cons_self⟩
      · rcases ih hfits h with ⟨hn, hk⟩ | hlt
        · exact Or.inl ⟨hn, List.mem_cons_of_mem _ hk⟩
        · exact Or.inr hlt
  | nested m k b r ihb ih =>
      obtain ⟨hm, -, hb, hr⟩ := hfits
      rcases List.mem_cons.mp h with rfl | h
      · exact Or.inl ⟨rfl, List.mem_cons_self⟩
      · rcases List.mem_append.mp h with h | h
        · right
          rcases ihb hb h with ⟨heq, -⟩ | hlt
          · exact heq ▸ hm
          · exact Nat.lt_trans hm hlt
        · rcases ih hr h with ⟨hn, hk⟩ | hlt
          · exact Or.inl ⟨hn, List.mem_cons_of_mem _ hk⟩
          · exact Or.inr hlt

theorem le_of_mem_lines (hfits : l.Fits n) (h : o ∈ l.lines n) : n ≤ o.indent := by
  rcases mem_lines hfits h with ⟨heq, -⟩ | hlt
  · exact Nat.le_of_eq heq.symm
  · exact Nat.le_of_lt hlt

end Lines

end YamlMap

/-! ## Reading a layout

The parser gives back the mapping, and whatever it gives back was laid out so. -/

section Blocks

variable {n fuel : Nat} {seen : List (Bytes × Nat)} {ls ls' : List YamlLine} {l : YamlLine}
  {rest : List Outline}

/-- Where a mapping ends: at a line that is indented less, or with the document. -/
def Ends (n : Nat) (rest : List Outline) : Prop := ∀ o ∈ rest.head?, o.indent < n

theorem ends_nil : Ends n [] := fun o ho => absurd ho (Option.not_mem_none o)

theorem Ends.append {m : Nat} {l : YamlMap Nat} (hm : n < m) (h : Ends n rest) :
    Ends m (l.lines n ++ rest) := by
  intro o ho
  rw [List.head?_append, Option.mem_def, Option.or_eq_some_iff] at ho
  rcases ho with hl | ⟨-, hrest⟩
  · rw [YamlMap.lines_head hl]
    exact hm
  · exact Nat.lt_trans (h o hrest) hm

theorem parseBlock_end (h : Ends n (ls.map YamlLine.outline)) (fuel : Nat)
    (seen : List (Bytes × Nat)) : parseBlock n fuel seen ls = .ok (.nil, ls) := by
  cases ls with
  | nil => cases fuel <;> rfl
  | cons l ls =>
      have hlt : l.indent < n := h l.outline rfl
      cases fuel with
      | zero => rfl
      | succ fuel =>
          rw [parseBlock, if_pos (Nat.ne_of_lt hlt), if_neg (Nat.not_lt.mpr (Nat.le_of_lt hlt))]

theorem lookup_snoc {k k' : Bytes} {a : Nat} :
    (seen ++ [(k, a)]).lookup k' = none ↔ seen.lookup k' = none ∧ k' ≠ k := by
  rw [List.lookup_append, Option.or_eq_none_iff]
  refine and_congr Iff.rfl ?_
  rw [List.lookup_cons]
  rcases Decidable.em (k' = k) with hk | hk
  · simp [hk]
  · simp [hk, beq_eq_false_iff_ne.mpr hk]

/-- A step of the loop, at a key with a value. -/
theorem parseBlock_scalar {v : Bytes} (hn : l.indent = n) (hseen : seen.lookup l.key = none)
    (hv : l.value = some v) {m : YamlMap Nat}
    (hrest : parseBlock n fuel (seen ++ [(l.key, l.number)]) ls = .ok (m, ls')) :
    parseBlock n (fuel + 1) seen (l :: ls) = .ok (.scalar l.number l.key v m, ls') := by
  rw [parseBlock, if_neg (not_not.mpr hn), hseen]
  simp only [hv, hrest]

/-- A step of the loop, at a key with a mapping beneath it. -/
theorem parseBlock_nested {l₁ : YamlLine} {ls₁ : List YamlLine} {b m : YamlMap Nat}
    (hn : l.indent = n) (hseen : seen.lookup l.key = none) (hv : l.value = none)
    (hhead : ls.head? = some l₁) (hdeep : n < l₁.indent)
    (hbody : parseBlock l₁.indent fuel [] ls = .ok (b, ls₁))
    (hrest : parseBlock n fuel (seen ++ [(l.key, l.number)]) ls₁ = .ok (m, ls')) :
    parseBlock n (fuel + 1) seen (l :: ls) = .ok (.nested l.number l.key b m, ls') := by
  have hfilter : (ls.head?.filter fun l' => decide (l'.indent > n)) = some l₁ := by
    rw [hhead, Option.filter_some, if_pos (decide_eq_true hdeep)]
  rw [parseBlock, if_neg (not_not.mpr hn), hseen]
  simp only [hv, hfilter, hbody, hrest]

/-- A layout is read back. -/
theorem parseBlock_lines {l : YamlMap Nat} (hfits : l.Fits n) (hdistinct : l.Distinct)
    (hseen : ∀ k ∈ l.keys, seen.lookup k = none)
    (hls : ls.map YamlLine.outline = l.lines n ++ rest) (hend : Ends n rest)
    (hfuel : ls.length ≤ fuel) :
    ∃ m ls', parseBlock n fuel seen ls = .ok (m, ls') ∧ m.forget = l.forget ∧
      ls'.map YamlLine.outline = rest := by
  induction l generalizing n fuel seen ls rest with
  | nil =>
      refine ⟨.nil, ls, ?_, rfl, hls⟩
      apply parseBlock_end
      rw [hls]
      exact hend
  | scalar a k v r ih =>
      obtain ⟨l₀, ls₀, rfl, hl₀, hls₀⟩ := List.map_eq_cons_iff.mp hls
      obtain ⟨hn, rfl, hv⟩ := Outline.mk.inj hl₀
      cases fuel with
      | zero => exact absurd hfuel (Nat.not_succ_le_zero _)
      | succ fuel =>
          have hseen' : ∀ k' ∈ r.keys, (seen ++ [(l₀.key, l₀.number)]).lookup k' = none := by
            intro k' hk'
            refine lookup_snoc.mpr ⟨hseen k' (List.mem_cons_of_mem _ hk'), ?_⟩
            rintro rfl
            exact hdistinct.1 hk'
          obtain ⟨m, ls', hparse, hforget, hrest⟩ := ih hfits hdistinct.2 hseen' hls₀ hend
            (Nat.le_of_succ_le_succ hfuel)
          refine ⟨_, ls', parseBlock_scalar hn (hseen _ List.mem_cons_self) hv hparse, ?_, hrest⟩
          rw [YamlMap.forget, YamlMap.forget, hforget]
  | nested m₀ k b r ihb ih =>
      obtain ⟨hdeep, hne, hb, hr⟩ := hfits
      obtain ⟨hnew, hdb, hdr⟩ := hdistinct
      rw [YamlMap.lines, List.cons_append, List.append_assoc] at hls
      obtain ⟨l₀, ls₀, rfl, hl₀, hls₀⟩ := List.map_eq_cons_iff.mp hls
      obtain ⟨hn, rfl, hv⟩ := Outline.mk.inj hl₀
      -- the mapping beneath has a first line, at its own indentation
      obtain ⟨o, os, hos, ho⟩ := @YamlMap.lines_ne_nil m₀ b hne
      obtain ⟨l₁, hhead, hl₁⟩ : ∃ l₁, ls₀.head? = some l₁ ∧ l₁.indent = m₀ := by
        rw [hos] at hls₀
        obtain ⟨l₁, ls₁, rfl, rfl, -⟩ := List.map_eq_cons_iff.mp hls₀
        exact ⟨l₁, rfl, ho⟩
      subst hl₁
      cases fuel with
      | zero => exact absurd hfuel (Nat.not_succ_le_zero _)
      | succ fuel =>
          have hlen : ls₀.length ≤ fuel := Nat.le_of_succ_le_succ hfuel
          obtain ⟨mb, ls₁, hbody, hforget, hls₁⟩ := @ihb _ fuel [] ls₀ _ hb hdb
            (fun _ _ => List.lookup_nil) hls₀ (hend.append hdeep) hlen
          have hlen₁ : ls₁.length ≤ fuel := by
            have hcount := congrArg List.length hls₀
            have hcount₁ := congrArg List.length hls₁
            simp only [List.length_map, List.length_append] at hcount hcount₁
            omega
          have hseen' : ∀ k' ∈ r.keys, (seen ++ [(l₀.key, l₀.number)]).lookup k' = none := by
            intro k' hk'
            refine lookup_snoc.mpr ⟨hseen k' (List.mem_cons_of_mem _ hk'), ?_⟩
            rintro rfl
            exact hnew hk'
          obtain ⟨m, ls', hparse, hforget', hrest⟩ := ih hr hdr hseen' hls₁ hend hlen₁
          refine ⟨_, ls', parseBlock_nested hn (hseen _ List.mem_cons_self) hv hhead hdeep hbody
            hparse, ?_, hrest⟩
          rw [YamlMap.forget, YamlMap.forget, hforget, hforget']

/-- What is read is a layout. -/
theorem lines_of_parseBlock {m : YamlMap Nat} (hfuel : ls.length ≤ fuel)
    (h : parseBlock n fuel seen ls = .ok (m, ls')) :
    ∃ l : YamlMap Nat, l.forget = m.forget ∧ l.Fits n ∧ l.Distinct ∧
      (∀ k ∈ l.keys, seen.lookup k = none) ∧
      ls.map YamlLine.outline = l.lines n ++ ls'.map YamlLine.outline ∧
      Ends n (ls'.map YamlLine.outline) := by
  induction fuel generalizing n seen ls m ls' with
  | zero =>
      cases List.length_eq_zero_iff.mp (Nat.le_zero.mp hfuel)
      cases h
      exact ⟨.nil, rfl, trivial, trivial, fun k hk => absurd hk List.not_mem_nil, rfl, ends_nil⟩
  | succ fuel ih =>
      cases ls with
      | nil =>
          cases h
          exact ⟨.nil, rfl, trivial, trivial, fun k hk => absurd hk List.not_mem_nil, rfl, ends_nil⟩
      | cons l₀ ls₀ =>
          have hlen : ls₀.length ≤ fuel := Nat.le_of_succ_le_succ hfuel
          rw [parseBlock] at h
          split at h
          · rename_i hn
            split at h
            · cases h
            · rename_i hdeep
              cases h
              refine ⟨.nil, rfl, trivial, trivial, fun k hk => absurd hk List.not_mem_nil, rfl, ?_⟩
              intro o ho
              cases ho
              exact Nat.lt_of_le_of_ne (Nat.not_lt.mp hdeep) hn
          · rename_i hn
            have hn := not_not.mp hn
            split at h
            · cases h
            · rename_i hseen
              split at h
              · rename_i v hv
                split at h
                · cases h
                · rename_i r ls₁ hparse
                  cases h
                  obtain ⟨l, hforget, hfits, hdistinct, hkeys, hlines, hend⟩ := ih hlen hparse
                  refine ⟨.scalar 0 l₀.key v l, ?_, hfits, ⟨?_, hdistinct⟩, ?_, ?_, hend⟩
                  · rw [YamlMap.forget, YamlMap.forget, hforget]
                  · intro hk
                    exact (lookup_snoc.mp (hkeys _ hk)).2 rfl
                  · intro k hk
                    rcases List.mem_cons.mp hk with rfl | hk
                    · exact hseen
                    · exact (lookup_snoc.mp (hkeys k hk)).1
                  · rw [List.map_cons, hlines, YamlLine.outline, hn, hv]
                    rfl
              · rename_i hv
                split at h
                · cases h
                · rename_i l₁ hfilter
                  obtain ⟨hhead, hdeep⟩ := Option.filter_eq_some_iff.mp hfilter
                  have hdeep : n < l₁.indent := of_decide_eq_true hdeep
                  split at h
                  · cases h
                  · rename_i b ls₁ hbody
                    split at h
                    · cases h
                    · rename_i r ls₂ hparse
                      cases h
                      obtain ⟨lb, hforget, hfits, hdistinct, -, hlines, hend⟩ := ih hlen hbody
                      have hlen₁ : ls₁.length ≤ fuel := by
                        have hcount := congrArg List.length hlines
                        simp only [List.length_map, List.length_append] at hcount
                        omega
                      obtain ⟨l, hforget', hfits', hdistinct', hkeys, hlines', hend'⟩ :=
                        ih hlen₁ hparse
                      refine ⟨.nested l₁.indent l₀.key lb l, ?_, ⟨hdeep, ?_, hfits, hfits'⟩,
                        ⟨?_, hdistinct, hdistinct'⟩, ?_, ?_, hend'⟩
                      · rw [YamlMap.forget, YamlMap.forget, hforget, hforget']
                      · -- the first line beneath is one of its lines
                        rintro rfl
                        have hlt : l₁.indent < l₁.indent := by
                          apply hend l₁.outline
                          rw [show ls₁.map YamlLine.outline = ls₀.map YamlLine.outline from
                            hlines.symm, List.head?_map, hhead]
                          rfl
                        exact Nat.lt_irrefl _ hlt
                      · intro hk
                        exact (lookup_snoc.mp (hkeys _ hk)).2 rfl
                      · intro k hk
                        rcases List.mem_cons.mp hk with rfl | hk
                        · exact hseen
                        · exact (lookup_snoc.mp (hkeys k hk)).1
                      · rw [List.map_cons, hlines, hlines', YamlLine.outline, hn, hv,
                          YamlMap.lines, List.cons_append, List.append_assoc]

/-- `parse_yaml` takes the lines exactly when they are a layout of a mapping. -/
theorem parseLines_iff (ls : List YamlLine) (t : YamlMap Unit) :
    (∃ m, parseLines ls = .ok m ∧ m.forget = t) ↔
      ∃ l : YamlMap Nat, l.forget = t ∧ l.Fits 0 ∧ l.Distinct ∧
        ls.map YamlLine.outline = l.lines 0 := by
  constructor
  · rintro ⟨m, hparse, rfl⟩
    unfold parseLines at hparse
    split at hparse
    · cases hparse
      exact ⟨.nil, rfl, trivial, trivial, rfl⟩
    · split at hparse
      · cases hparse
      · split at hparse
        · cases hparse
        · rename_i hblock
          cases hparse
          obtain ⟨l, hforget, hfits, hdistinct, -, hlines, -⟩ :=
            lines_of_parseBlock (Nat.le_refl _) hblock
          rw [List.map_nil, List.append_nil] at hlines
          exact ⟨l, hforget, hfits, hdistinct, hlines⟩
        · cases hparse
  · rintro ⟨l, rfl, hfits, hdistinct, hlines⟩
    have hall : ls.map YamlLine.outline = l.lines 0 ++ [] := by rw [List.append_nil, hlines]
    obtain ⟨m, ls', hblock, hforget, hrest⟩ := @parseBlock_lines 0 ls.length [] ls [] l hfits
      hdistinct (fun _ _ => List.lookup_nil) hall ends_nil (Nat.le_refl _)
    cases List.map_eq_nil_iff.mp hrest
    cases ls with
    | nil =>
        cases hblock
        exact ⟨.nil, rfl, hforget⟩
    | cons l₀ ls =>
        have hindent : l₀.indent = 0 := by
          apply @YamlMap.lines_head 0 l l₀.outline
          rw [← hlines]
          rfl
        refine ⟨m, ?_, hforget⟩
        unfold parseLines
        simp only [hindent, hblock, ne_eq, not_true_eq_false, if_false]

end Blocks

/-! ## What is in no layout

The two faults a configuration is likely to have, each refused. -/

/-- A key is repeated within a mapping: it comes again, at its indentation,
before any line that is indented less. -/
def Repeats : List Outline → Prop
  | [] => False
  | o :: os =>
      (∃ o' ∈ os.takeWhile fun o' => o.indent ≤ o'.indent,
        o'.indent = o.indent ∧ o'.key = o.key) ∨ Repeats os

/-- Beneath `above`, nearest line first, there is an open mapping whose keys are
at indentation `n`: the nearest line that is not indented deeper is one of them. -/
def OpenAt (above : List Outline) (n : Nat) : Prop :=
  ∃ o ∈ (above.dropWhile fun o => n < o.indent).head?, o.indent = n

/-- A line at indentation `n` opens the document, or the section of the key
above it. -/
def OpensAt : List Outline → Nat → Prop
  | [], n => n = 0
  | o :: _, n => o.value = none ∧ o.indent < n

/-- Some line is at the indentation of no open mapping, and opens no section. -/
def Misplaced : List Outline → List Outline → Prop
  | _, [] => False
  | above, o :: os =>
      (¬ OpenAt above o.indent ∧ ¬ OpensAt above o.indent) ∨ Misplaced (o :: above) os

section Layouts

variable {n : Nat} {l : YamlMap Nat} {above rest : List Outline}

theorem openAt_cons (o : Outline) : OpenAt (o :: above) o.indent := by
  refine ⟨o, ?_, rfl⟩
  rw [List.dropWhile_cons_of_neg (by simp)]
  rfl

/-- A mapping that is indented deeper closes none. -/
theorem OpenAt.deeper {os : List Outline} (h : OpenAt above n) (hos : ∀ o ∈ os, n < o.indent) :
    OpenAt (os ++ above) n := by
  obtain ⟨o, ho, hn⟩ := h
  refine ⟨o, ?_, hn⟩
  rw [List.dropWhile_append_of_pos fun o' ho' => decide_eq_true (hos o' ho')]
  exact ho

theorem misplaced_lines (hfits : l.Fits n) (hopen : OpenAt above n ∨ OpensAt above n)
    (h : Misplaced above (l.lines n ++ rest)) : Misplaced ((l.lines n).reverse ++ above) rest := by
  induction l generalizing n above rest with
  | nil => exact h
  | scalar _ k v r ih =>
      rw [YamlMap.lines, List.cons_append] at h
      rw [YamlMap.lines, List.reverse_cons, List.append_assoc, List.singleton_append]
      rcases h with ⟨hnot, hnot'⟩ | h
      · exact absurd hopen (not_or.mpr ⟨hnot, hnot'⟩)
      · exact ih hfits (Or.inl (openAt_cons _)) h
  | nested m k b r ihb ih =>
      obtain ⟨hdeep, -, hb, hr⟩ := hfits
      rw [YamlMap.lines, List.cons_append, List.append_assoc] at h
      rw [YamlMap.lines, List.reverse_cons, List.reverse_append, List.append_assoc,
        List.append_assoc, List.singleton_append]
      rcases h with ⟨hnot, hnot'⟩ | h
      · exact absurd hopen (not_or.mpr ⟨hnot, hnot'⟩)
      · have hopens : OpensAt (⟨n, k, none⟩ :: above) m := ⟨rfl, hdeep⟩
        have hbody := ihb hb (Or.inr hopens) h
        refine ih hr (Or.inl ?_) hbody
        apply OpenAt.deeper (openAt_cons _)
        intro o ho
        exact Nat.lt_of_lt_of_le hdeep (YamlMap.le_of_mem_lines hb (List.mem_reverse.mp ho))

theorem takeWhile_lines (hfits : l.Fits n) (hend : Ends n rest) :
    ((l.lines n ++ rest).takeWhile fun o => n ≤ o.indent) = l.lines n := by
  rw [List.takeWhile_append_of_pos fun o ho =>
    decide_eq_true (YamlMap.le_of_mem_lines hfits ho)]
  cases rest with
  | nil => exact List.append_nil _
  | cons o os =>
      have hlt : o.indent < n := hend o rfl
      rw [List.takeWhile_cons_of_neg (by simpa using hlt), List.append_nil]

theorem repeats_lines (hfits : l.Fits n) (hdistinct : l.Distinct) (hend : Ends n rest)
    (h : Repeats (l.lines n ++ rest)) : Repeats rest := by
  induction l generalizing n rest with
  | nil => exact h
  | scalar _ k v r ih =>
      have hr : r.Fits n := hfits
      rcases h with ⟨o, ho, hn, hk⟩ | h
      · change o ∈ (r.lines n ++ rest).takeWhile fun o => n ≤ o.indent at ho
        rw [takeWhile_lines hr hend] at ho
        rcases YamlMap.mem_lines hr ho with ⟨-, hkey⟩ | hlt
        · rw [hk] at hkey
          exact absurd hkey hdistinct.1
        · exact absurd hn (Nat.ne_of_gt hlt)
      · exact ih hr hdistinct.2 hend h
  | nested m k b r ihb ih =>
      obtain ⟨hdeep, -, hb, hr⟩ := hfits
      obtain ⟨hnew, hdb, hdr⟩ := hdistinct
      rw [YamlMap.lines, List.cons_append, List.append_assoc] at h
      rcases h with ⟨o, ho, hn, hk⟩ | h
      · have hbody : ∀ o ∈ b.lines m, n < o.indent := fun o ho =>
          Nat.lt_of_lt_of_le hdeep (YamlMap.le_of_mem_lines hb ho)
        rw [List.takeWhile_append_of_pos fun o ho => decide_eq_true (Nat.le_of_lt (hbody o ho)),
          takeWhile_lines hr hend] at ho
        rcases List.mem_append.mp ho with ho | ho
        · exact absurd hn (Nat.ne_of_gt (hbody o ho))
        · rcases YamlMap.mem_lines hr ho with ⟨-, hkey⟩ | hlt
          · rw [hk] at hkey
            exact absurd hkey hnew
          · exact absurd hn (Nat.ne_of_gt hlt)
      · exact ih hr hdr hend (ihb hb hdb (hend.append hdeep) h)

end Layouts

/-- Lines that repeat a key or are out of place are refused. -/
theorem parseLines_refuses {ls : List YamlLine}
    (h : Repeats (ls.map YamlLine.outline) ∨ Misplaced [] (ls.map YamlLine.outline)) :
    ∃ e, parseLines ls = .error e := by
  cases hparse : parseLines ls with
  | error e => exact ⟨e, rfl⟩
  | ok m =>
      obtain ⟨l, -, hfits, hdistinct, hlines⟩ := (parseLines_iff ls m.forget).mp ⟨m, hparse, rfl⟩
      rw [hlines, ← List.append_nil (l.lines 0)] at h
      rcases h with hrepeats | hmisplaced
      · exact (repeats_lines hfits hdistinct ends_nil hrepeats).elim
      · have hopens : OpensAt [] 0 := rfl
        exact (misplaced_lines hfits (Or.inr hopens) hmisplaced).elim

end UConnect.Server
