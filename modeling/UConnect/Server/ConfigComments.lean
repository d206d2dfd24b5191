/-
  Server/ConfigComments.lean --- comments behind values.

  Source: server/config.cpp, `strip_comment`, `parse_scalar` and `split_lines`.

  `strip_comment` takes any quote character outside quotes for the start of a
  quote; `parse_scalar` takes one for a quote only where the value starts.  They
  agree on every value in quotes, but not on a plain one with a quote character
  in it that is not paired.  What is put behind such a value becomes part of
  it.  Only the host to bind to can be such a value.
-/
import UConnect.Server.ConfigEntries
import UConnect.Server.YamlDocument

set_option autoImplicit false

namespace UConnect.Server

open UConnect.Foundation UConnect.Crypto UConnect.Wire

/-! ## Where the two agree

On a value in quotes the scanner ends up outside quotes exactly where the reader
does. -/

theorem scan_step {m : Mode} {prev : Option UInt8} (hm : m ≠ .bare) (c : UInt8) (s : Bytes) :
    scan m prev (c :: s) = scan (m.next c) (some c) s := by
  rw [scan, if_neg (startsComment_of_ne hm c)]

/-- A value in single quotes ends outside them. -/
theorem scan_readSingle {s v : Bytes} (h : readSingle s = .ok v) (prev : Option UInt8) :
    ∃ prev', scan .single prev s = some (.bare, prev') := by
  induction hlen : s.length using Nat.strong_induction_on generalizing s v prev with
  | _ len ih =>
      subst hlen
      cases s with
      | nil => cases h
      | cons c s =>
          rw [scan_step Mode.noConfusion, Mode.next]
          unfold readSingle at h
          split at h
          · rename_i hc
            rw [if_neg hc]
            cases hrest : readSingle s with
            | error e =>
                rw [hrest] at h
                cases h
            | ok v' => exact ih s.length (Nat.lt_succ_self _) hrest (some c) rfl
          · rename_i hc
            have hc := not_not.mp hc
            rw [if_pos hc]
            cases s with
            | nil => exact ⟨_, rfl⟩
            | cons d s =>
                -- a quote that is doubled closes the quotes and opens them again
                simp only at h
                split at h
                · rename_i hd
                  subst hd hc
                  cases hrest : readSingle s with
                  | error e =>
                      rw [hrest] at h
                      cases h
                  | ok v' =>
                      have hlt : s.length < (kSingleQuote :: kSingleQuote :: s).length := by
                        simp only [List.length_cons]
                        omega
                      exact ih s.length hlt hrest (some kSingleQuote) rfl
                · cases h

/-- A value in double quotes ends outside them. -/
theorem scan_readDouble {s v : Bytes} (h : readDouble s = .ok v) (prev : Option UInt8) :
    ∃ prev', scan .double prev s = some (.bare, prev') := by
  induction hlen : s.length using Nat.strong_induction_on generalizing s v prev with
  | _ len ih =>
      subst hlen
      cases s with
      | nil => cases h
      | cons c s =>
          rw [scan_step Mode.noConfusion, Mode.next]
          unfold readDouble at h
          split at h
          · rename_i hc
            rw [if_pos hc]
            cases s with
            | nil => cases h
            | cons e s =>
                rw [scan_step Mode.noConfusion, Mode.next]
                simp only at h
                split at h
                · cases h
                · cases hrest : readDouble s with
                  | error e =>
                      rw [hrest] at h
                      cases h
                  | ok v' =>
                      have hlt : s.length < (c :: e :: s).length := by
                        simp only [List.length_cons]
                        omega
                      exact ih s.length hlt hrest (some e) rfl
          · rename_i hc
            rw [if_neg hc]
            split at h
            · rename_i hc'
              rw [if_pos hc']
              split at h
              · rename_i hs
                subst hs
                exact ⟨_, rfl⟩
              · cases h
            · rename_i hc'
              rw [if_neg hc']
              cases hrest : readDouble s with
              | error e =>
                  rw [hrest] at h
                  cases h
              | ok v' => exact ih s.length (Nat.lt_succ_self _) hrest (some c) rfl

/-- A quote character. -/
def isQuote (c : UInt8) : Bool := c = kSingleQuote || c = kDoubleQuote

theorem scan_unquoted {t : Bytes} (h : ∀ c ∈ t, isQuote c = false) (prev : Option UInt8) :
    ∀ st ∈ scan .bare prev t, st.1 = .bare := by
  induction t generalizing prev with
  | nil =>
      intro st hst
      cases hst
      rfl
  | cons c t ih =>
      have hc := h c List.mem_cons_self
      simp only [isQuote, Bool.or_eq_false_iff, decide_eq_false_iff_not] at hc
      intro st hst
      rw [scan] at hst
      split at hst
      · cases hst
      · simp only [Mode.next, if_neg hc.1, if_neg hc.2] at hst
        exact ih (fun c' hc' => h c' (List.mem_cons_of_mem _ hc')) (some c) st hst

/-- A scalar is a text in quotes, over which the scan goes, or plain, which is
read as it is whatever else it goes on with. -/
theorem parseScalar_cases {x v : Bytes} (hne : x ≠ []) (h : parseScalar x = .ok v) :
    (∀ prev, ∃ prev', scan .bare prev x = some (.bare, prev')) ∨
      (v = x ∧ ∀ z, parseScalar (x ++ z) = .ok (x ++ z)) := by
  obtain ⟨c, s, rfl⟩ := List.exists_cons_of_ne_nil hne
  rw [parseScalar] at h
  split at h
  · rename_i hc
    subst hc
    exact Or.inl fun prev => scan_readSingle h (some kSingleQuote)
  · rename_i hc
    split at h
    · rename_i hc'
      subst hc'
      exact Or.inl fun prev => scan_readDouble h (some kDoubleQuote)
    · rename_i hc'
      right
      unfold readPlain at h
      split at h
      · cases h
      · split at h
        · cases h
        · split at h
          · cases h
          · split at h
            · cases h
            · cases h
              refine ⟨rfl, fun z => ?_⟩
              rw [List.cons_append, parseScalar, if_neg hc, if_neg hc', readPlain]
              simp only [*, if_false]

/-! ## What is behind a value

Blanks and a comment behind a value, cut off again. -/

theorem trim_append_blank {y : Bytes} (hy : ∀ c ∈ y, isBlank c = true) (s : Bytes) :
    trim (s ++ y) = trim s := by
  unfold trim
  rw [List.dropWhile_append]
  split
  · rename_i hempty
    rw [List.isEmpty_iff.mp hempty, List.dropWhile_eq_nil_iff.mpr hy]
  · exact rdropWhile_append_of_blank hy

theorem rdropWhile_hash (s u : Bytes) :
    (s ++ kHash :: u).rdropWhile isBlank = s ++ kHash :: u.rdropWhile isBlank := by
  induction u using List.reverseRecOn with
  | nil => exact List.rdropWhile_concat_neg _ _ _ (by decide)
  | append_singleton u c ih =>
      rw [← List.cons_append, ← List.append_assoc]
      rcases hc : isBlank c with _ | _
      · rw [List.rdropWhile_concat_neg _ _ _ (by rw [hc]; exact Bool.false_ne_true),
          List.rdropWhile_concat_neg _ _ _ (by rw [hc]; exact Bool.false_ne_true),
          List.append_assoc, List.cons_append]
      · rw [List.rdropWhile_concat_pos _ _ _ hc, List.rdropWhile_concat_pos _ _ _ hc, ih]

/-- A hash behind a text is not taken away, nor is what is between them. -/
theorem trim_append_hash {s : Bytes} (hs : trim s ≠ []) (w u : Bytes) :
    ∃ w' u', trim (s ++ w ++ kHash :: u) = trim s ++ (w' ++ kHash :: u') := by
  have hdrop : s.dropWhile isBlank ≠ [] := by
    intro hnil
    apply hs
    rw [trim, hnil]
    rfl
  obtain ⟨y, hy⟩ := List.rdropWhile_prefix isBlank (s.dropWhile isBlank)
  refine ⟨y ++ w, u.rdropWhile isBlank, ?_⟩
  have hall : (s ++ w ++ kHash :: u).dropWhile isBlank = trim s ++ (y ++ w) ++ kHash :: u := by
    rw [List.append_assoc, List.dropWhile_append, if_neg (by simpa using hdrop), ← hy, trim]
    simp only [List.append_assoc]
  rw [trim, hall, rdropWhile_hash, List.append_assoc]

/-- What `trim` takes away is blank. -/
theorem trim_split (s : Bytes) :
    ∃ x y, (∀ c ∈ x, isBlank c = true) ∧ (∀ c ∈ y, isBlank c = true) ∧ s = x ++ trim s ++ y := by
  refine ⟨s.takeWhile isBlank, (s.dropWhile isBlank).rtakeWhile isBlank,
    fun c hc => List.mem_takeWhile_imp hc, fun c hc => List.mem_rtakeWhile_imp hc, ?_⟩
  rw [trim, List.append_assoc, List.rdropWhile_append_rtakeWhile, List.takeWhile_append_dropWhile]

/-! ## Texts that leave no quote open

A text is transparent for what follows if it leaves the scanner as it found it. -/

/-- The scan goes over the text, from outside quotes to outside quotes. -/
def Passes (t : Bytes) : Prop := ∀ prev, ∃ prev', scan .bare prev t = some (.bare, prev')

theorem Passes.append {t u : Bytes} (ht : Passes t) (hu : Passes u) : Passes (t ++ u) := by
  intro prev
  obtain ⟨prev₁, hscan₁⟩ := ht prev
  obtain ⟨prev₂, hscan₂⟩ := hu prev₁
  refine ⟨prev₂, ?_⟩
  rw [scan_append, hscan₁]
  exact hscan₂

/-! ## Lines with a value

A line is its indent, its key and its value, and only the value can leave a
quote open. -/

/-- A text is a key and, behind it, a value. -/
structure Parts (content key s : Bytes) : Prop where
  text : content = key ++ kColon :: s
  key : key ≠ [] ∧ ∀ c ∈ key, keyChar c = true
  space : s.head? = some kSpace
  value : trim s ≠ []

theorem Parts.ne_nil {content key s : Bytes} (h : Parts content key s) : content ≠ [] := by
  rw [h.text]
  exact List.append_ne_nil_of_right_ne_nil key (List.cons_ne_nil _ _)

/-- Around the value there is nothing that opens a quote. -/
theorem Parts.around {text key s : Bytes} (h : Parts (trim text) key s) :
    ∃ a b, (∀ c ∈ a, Inert c) ∧ (∀ c ∈ b, Inert c) ∧ text = a ++ trim s ++ b := by
  obtain ⟨x, y, hx, hy, htext⟩ := trim_split text
  obtain ⟨x', y', hx', hy', hs⟩ := trim_split s
  refine ⟨x ++ key ++ kColon :: x', y' ++ y, ?_, ?_, ?_⟩
  · intro c hc
    rw [List.mem_append, List.mem_append, List.mem_cons] at hc
    rcases hc with (hc | hc) | rfl | hc
    · exact inert_of_blank (hx c hc)
    · exact inert_of_keyChar (h.key.2 c hc)
    · exact ⟨by decide, by decide, by decide⟩
    · exact inert_of_blank (hx' c hc)
  · intro c hc
    rcases List.mem_append.mp hc with hc | hc
    · exact inert_of_blank (hy' c hc)
    · exact inert_of_blank (hy c hc)
  · rw [h.text] at htext
    rw [htext]
    nth_rewrite 1 [hs]
    simp only [List.append_assoc, List.cons_append]

/-- What is read as a key with a value. -/
theorem readContent_value {number n : Nat} {begun tab : Bool} {content : Bytes} {l : YamlLine}
    {v : Bytes} (h : readContent number begun n tab content = .ok (some l)) (hv : l.value = some v) :
    tab = false ∧ ∃ key s, Parts content key s ∧ parseScalar (trim s) = .ok v := by
  unfold readContent at h
  split at h
  · cases h
  · split at h
    · cases h
    · rename_i htab
      refine ⟨Bool.not_eq_true _ ▸ htab, ?_⟩
      split at h
      · cases h
      · split at h
        · cases h
        · split at h
          · cases h
          · split at h
            · cases h
            · unfold readEntry at h
              simp only at h
              split at h
              · cases h
              · rename_i c s hdrop
                split at h
                · cases h
                · rename_i hform
                  simp only [not_or, not_and, not_not] at hform
                  obtain ⟨hkey, rfl, hspace⟩ := hform
                  have hcontent : content = content.takeWhile keyChar ++ kColon :: s := by
                    rw [← hdrop, List.takeWhile_append_dropWhile]
                  split at h
                  · cases h
                    cases hv
                  · rename_i htrim
                    split at h
                    · cases h
                    · rename_i v' hparse
                      cases h
                      cases hv
                      have hs : s ≠ [] := by
                        rintro rfl
                        exact htrim rfl
                      exact ⟨_, s, ⟨hcontent, ⟨hkey, fun c hc => List.mem_takeWhile_imp hc⟩,
                        hspace hs, htrim⟩, hparse⟩

/-- A key with a value is read as such. -/
theorem Parts.readContent {content key s v : Bytes} (h : Parts content key s)
    (hparse : parseScalar (trim s) = .ok v) (number n : Nat) (begun : Bool) :
    readContent number begun n false content = .ok (some ⟨number, n, key, some v⟩) := by
  obtain ⟨rfl, ⟨hne, hkey⟩, hspace, htrim⟩ := h
  obtain ⟨htake, hdrop⟩ := @takeWhile_key key s hkey
  rw [readContent_colon hne hkey]
  unfold readEntry
  simp only [htake, hdrop]
  rw [if_neg (by simp [hne, hspace]), if_neg htrim, hparse]
  rfl

/-- A hash behind the text is behind its value. -/
theorem Parts.longer {text key s : Bytes} (h : Parts (trim text) key s) (w u : Bytes) :
    ∃ s' z, Parts (trim (text ++ w ++ kHash :: u)) key s' ∧ trim s' = trim s ++ z ∧ z ≠ [] := by
  obtain ⟨w₁, u₁, htext⟩ := trim_append_hash h.ne_nil w u
  obtain ⟨w₂, u₂, hvalue⟩ := trim_append_hash h.value w₁ u₁
  refine ⟨s ++ w₁ ++ kHash :: u₁, w₂ ++ kHash :: u₂, ⟨?_, h.key, ?_, ?_⟩, hvalue, ?_⟩
  · rw [htext, h.text]
    simp only [List.append_assoc, List.cons_append]
  · rw [List.append_assoc, List.head?_append, h.space]
    rfl
  · rw [hvalue]
    exact List.append_ne_nil_of_left_ne_nil h.value _
  · exact List.append_ne_nil_of_right_ne_nil w₂ (List.cons_ne_nil _ _)

/-- A line without its indentation. -/
def unindented (line : Bytes) : Bytes := line.dropWhile (· = kSpace)

/-- A line with a value, without a carriage return at its end. -/
def HasValue (line : Bytes) : Prop :=
  ∃ number begun l, readLine number begun line = .ok (some l) ∧ l.value ≠ none

/-- Where a comment is put behind a line it is seen as one: there is one
already, or no quote is open there. -/
def Settled (line : Bytes) : Prop := ∀ st ∈ scan .bare none (unindented line), st.1 = .bare

section Lines

variable {line raw t : Bytes}

theorem readLine_eq (hraw : dropReturn raw = line) (number : Nat) (begun : Bool) :
    readLine number begun raw =
      readContent number begun (line.takeWhile (· = kSpace)).length
        ((unindented line).head? = some kTab) (trim (stripComment (unindented line))) := by
  unfold readLine
  simp only
  rw [hraw]
  rfl

/-- What is put behind a line is behind its text. -/
theorem readLine_append (hne : unindented line ≠ []) {w : Bytes} (hraw : dropReturn raw = line ++ w)
    (number : Nat) (begun : Bool) :
    readLine number begun raw =
      readContent number begun (line.takeWhile (· = kSpace)).length
        ((unindented line).head? = some kTab) (trim (stripComment (unindented line ++ w))) := by
  have hdrop : unindented (line ++ w) = unindented line ++ w := by
    unfold unindented at hne ⊢
    rw [List.dropWhile_append, if_neg (by simpa using hne)]
  have htake : (line ++ w).takeWhile (· = kSpace) = line.takeWhile (· = kSpace) := by
    rw [List.takeWhile_append, if_neg]
    intro hlen
    apply hne
    have hcount := congrArg List.length (@List.takeWhile_append_dropWhile _ (· = kSpace) line)
    rw [List.length_append] at hcount
    apply List.eq_nil_of_length_eq_zero
    unfold unindented
    omega
  have hhead : (unindented line ++ w).head? = (unindented line).head? := by
    obtain ⟨c, s, hcs⟩ := List.exists_cons_of_ne_nil hne
    rw [hcs]
    rfl
  rw [readLine_eq hraw, hdrop, htake, hhead]

/-- A comment that is seen as one changes nothing. -/
theorem readLine_settled {raw' : Bytes} (hne : unindented line ≠ []) (hsettled : Settled line)
    (hraw : dropReturn raw = line) (hraw' : dropReturn raw' = line ++ kSpace :: kHash :: t)
    (number : Nat) (begun : Bool) : readLine number begun raw' = readLine number begun raw := by
  have hstrip : trim (stripComment (unindented line ++ kSpace :: kHash :: t)) =
      trim (stripComment (unindented line)) := by
    rw [stripComment_eq_keep, stripComment_eq_keep]
    cases hscan : scan .bare none (unindented line) with
    | none => rw [keep_append_of_none hscan]
    | some st =>
        obtain ⟨m, prev⟩ := st
        have hm : m = .bare := hsettled (m, prev) hscan
        subst hm
        rw [keep_append hscan, keep_of_scan hscan]
        exact trim_append_blank (keep_trail (.comment t) prev) _
  rw [readLine_append hne hraw', readLine_eq hraw, hstrip]

/-- Inside quotes a comment is not seen. -/
theorem keep_quoted {m : Mode} (hm : m ≠ .bare) (prev : Option UInt8) (t : Bytes) :
    ∃ u, keep m prev (kSpace :: kHash :: t) = kSpace :: kHash :: u := by
  have hnext : m.next kSpace ≠ .bare := by
    cases m with
    | bare => exact absurd rfl hm
    | single => exact Mode.noConfusion
    | double => exact Mode.noConfusion
    | escape => exact Mode.noConfusion
  rw [keep, if_neg (startsComment_of_ne hm _), keep, if_neg (startsComment_of_ne hnext _)]
  exact ⟨_, rfl⟩

/-- Where a quote is open at the end of the line, the value has a quote
character in it, and what is put behind becomes part of it. -/
theorem readLine_unsettled {raw' v : Bytes} {number : Nat} {begun : Bool} {l : YamlLine}
    (hunsettled : ¬ Settled line) (hread : readLine number begun raw = .ok (some l))
    (hv : l.value = some v) (hraw : dropReturn raw = line)
    (hraw' : dropReturn raw' = line ++ kSpace :: kHash :: t) :
    ∃ n key z, z ≠ [] ∧ (∃ c ∈ v, isQuote c = true) ∧ ReadAs raw (some ⟨n, key, some v⟩) ∧
      ReadAs raw' (some ⟨n, key, some (v ++ z)⟩) := by
  obtain ⟨⟨m, prev⟩, hscan, hm⟩ : ∃ st, scan .bare none (unindented line) = some st ∧
      st.1 ≠ .bare := by
    by_contra hnone
    exact hunsettled fun st hst => by_contra fun hm => hnone ⟨st, hst, hm⟩
  have hstrip : stripComment (unindented line) = unindented line := by
    rw [stripComment_eq_keep, keep_of_scan hscan]
  rw [readLine_eq hraw, hstrip] at hread
  obtain ⟨htab, key, s, hparts, hparse⟩ := readContent_value hread hv
  obtain ⟨a, b, ha, hb, htext⟩ := hparts.around
  -- else the scan would be outside quotes at the end
  have hopen : ¬ Passes (trim s) := by
    intro hvalue
    have hall : Passes (unindented line) := by
      rw [htext]
      exact (Passes.append (scan_inert ha) hvalue).append (scan_inert hb)
    obtain ⟨prev', hbare⟩ := hall none
    rw [hscan] at hbare
    cases hbare
    exact hm rfl
  obtain ⟨rfl, hlonger⟩ := (parseScalar_cases hparts.value hparse).resolve_left hopen
  have hquote : ∃ c ∈ trim s, isQuote c = true := by
    by_contra hnone
    have hinert : ∀ c, Inert c → isQuote c = false := by
      intro c hc
      simp [isQuote, hc.1, hc.2.1]
    refine hm (scan_unquoted ?_ none (m, prev) hscan)
    intro c hc
    rw [htext, List.mem_append, List.mem_append] at hc
    rcases hc with (hc | hc) | hc
    · exact hinert c (ha c hc)
    · exact Bool.eq_false_iff.mpr fun hq => hnone ⟨c, hc, hq⟩
    · exact hinert c (hb c hc)
  obtain ⟨u, hkeep⟩ := keep_quoted hm prev t
  obtain ⟨s', z, hparts', hs', hz⟩ := hparts.longer [kSpace] u
  refine ⟨(line.takeWhile (· = kSpace)).length, key, z, hz, hquote, ?_, ?_⟩
  · intro number begun
    rw [readLine_eq hraw, hstrip, htab, hparts.readContent hparse]
    rfl
  · intro number begun
    have hne : unindented line ≠ [] := by
      intro hnil
      rw [hnil] at hparts
      exact hparts.ne_nil rfl
    have hcontent : stripComment (unindented line ++ kSpace :: kHash :: t) =
        unindented line ++ [kSpace] ++ kHash :: u := by
      rw [stripComment_eq_keep, keep_append hscan, hkeep, List.append_assoc, List.singleton_append]
    have hparse' : parseScalar (trim s') = .ok (trim s ++ z) := by
      rw [hs']
      exact hlonger z
    rw [readLine_append hne hraw', htab, hcontent, hparts'.readContent hparse']
    rfl

end Lines

/-! ## Lines of a document

Changing one line of a document that sets the same changes nothing else. -/

theorem rawLines_append {pre : Bytes} (hpre : pre = [] ∨ pre.getLast? = some kNewline) (x : Bytes) :
    rawLines (pre ++ x) = rawLines pre ++ rawLines x := by
  induction pre with
  | nil => rfl
  | cons c pre ih =>
      have hlast : pre = [] ∨ pre.getLast? = some kNewline := by
        cases pre with
        | nil => exact Or.inl rfl
        | cons d pre =>
            right
            rw [List.getLast?_cons_cons] at hpre
            exact hpre.resolve_left (List.cons_ne_nil _ _)
      rw [List.cons_append, rawLines, rawLines]
      rcases Decidable.em (c = kNewline) with hc | hc
      · rw [if_pos hc, if_pos hc, ih hlast, List.cons_append]
      · rw [if_neg hc, if_neg hc, ih hlast]
        -- the line goes on, so the text before has another one
        cases pre with
        | nil =>
            have hc' := hpre.resolve_left (List.cons_ne_nil _ _)
            exact absurd (Option.some.inj hc') hc
        | cons d pre =>
            cases hraw : rawLines (d :: pre) with
            | cons l ls => rfl
            | nil =>
                rw [rawLines] at hraw
                split at hraw
                · cases hraw
                · split at hraw <;> cases hraw

/-- The lines after one do not depend on it. -/
theorem rawLines_line {post : Bytes} (hpost : post = [] ∨ post.head? = some kNewline) :
    ∃ raws, ∀ raw, raw ≠ [] → kNewline ∉ raw → rawLines (raw ++ post) = raw :: raws := by
  rcases hpost with rfl | hpost
  · refine ⟨[], fun raw hne hraw => ?_⟩
    rw [List.append_nil]
    induction raw with
    | nil => exact absurd rfl hne
    | cons c raw ih =>
        have hc : c ≠ kNewline := fun hc => hraw (hc ▸ List.mem_cons_self)
        rw [rawLines, if_neg hc]
        cases raw with
        | nil => rfl
        | cons d raw =>
            rw [ih (List.cons_ne_nil _ _) fun hmem => hraw (List.mem_cons_of_mem _ hmem)]
  · obtain ⟨rest, rfl⟩ : ∃ rest, post = kNewline :: rest := by
      cases post with
      | nil => cases hpost
      | cons c rest =>
          cases hpost
          exact ⟨rest, rfl⟩
    refine ⟨rawLines rest, fun raw _ hraw => ?_⟩
    have hcons := rawLines_cons hraw rest
    rwa [List.append_assoc] at hcons

theorem splitLines_congr {raw raw' : Bytes}
    (h : ∀ number begun, readLine number begun raw' = readLine number begun raw)
    (raws₁ raws₂ : List Bytes) (number : Nat) (begun : Bool) :
    splitLines number begun (raws₁ ++ raw' :: raws₂) =
      splitLines number begun (raws₁ ++ raw :: raws₂) := by
  induction raws₁ generalizing number begun with
  | nil => rw [List.nil_append, List.nil_append, splitLines, splitLines, h]
  | cons r raws₁ ih =>
      rw [List.cons_append, List.cons_append, splitLines, splitLines]
      simp only [ih]

/-- A line that is read as a key is among the keys. -/
theorem mem_of_splitLines {raws : List Bytes} {number : Nat} {begun : Bool} {ls : List YamlLine}
    {raw : Bytes} {o : Outline} (h : splitLines number begun raws = .ok ls) (hmem : raw ∈ raws)
    (hread : ReadAs raw (some o)) : o ∈ ls.map YamlLine.outline := by
  induction raws generalizing number begun ls with
  | nil => cases hmem
  | cons r raws ih =>
      rw [splitLines] at h
      rcases List.mem_cons.mp hmem with rfl | hmem
      · rw [hread] at h
        simp only [Option.map_some] at h
        cases hrest : splitLines (number + 1) true raws with
        | error e =>
            rw [hrest] at h
            cases h
        | ok ls' =>
            rw [hrest] at h
            cases h
            exact List.mem_cons_self
      · cases hr : readLine (number + 1) begun r with
        | error e =>
            rw [hr] at h
            cases h
        | ok l =>
            rw [hr] at h
            cases l with
            | none => exact ih h hmem
            | some l =>
                cases hrest : splitLines (number + 1) true raws with
                | error e =>
                    simp only [hrest] at h
                    cases h
                | ok ls' =>
                    simp only [hrest] at h
                    cases h
                    exact List.mem_cons_of_mem _ (ih hrest hmem)

/-! ## Values that are set

A key stands once in its section, so the line of a setting decides what is set. -/

section Entries

variable {α : Type} {m : YamlMap α} {path above : Bytes}

theorem joinPath_ne_nil (habove : above ≠ []) (k : Bytes) : joinPath above k ≠ [] := by
  rw [joinPath, if_neg habove, List.append_assoc]
  exact List.append_ne_nil_of_left_ne_nil habove _

theorem ne_nil_of_isSection (h : isSection path = true) : path ≠ [] := by
  rintro rfl
  exact absurd h (by decide +kernel)

/-- Beneath a key every path has a dot. -/
theorem dot_of_entries (habove : above ≠ []) : ∀ e ∈ m.entries above, kDot ∈ e.1 := by
  induction m generalizing above with
  | nil => exact fun e he => absurd he List.not_mem_nil
  | scalar _ k v r ih =>
      intro e he
      rcases List.mem_cons.mp he with rfl | he
      · rw [joinPath, if_neg habove]
        simp
      · exact ih habove e he
  | nested _ k b r ihb ih =>
      intro e he
      rcases List.mem_append.mp he with he | he
      · exact ihb (joinPath_ne_nil habove k) e he
      · exact ih habove e he

theorem mem_keys_of_entries (hsectioned : m.Sectioned []) (hdot : kDot ∉ path) {v : Bytes}
    (h : (path, v) ∈ m.entries []) : path ∈ m.keys := by
  induction m with
  | nil => cases h
  | scalar _ k v' r ih =>
      rcases List.mem_cons.mp h with heq | h
      · cases heq
        exact List.mem_cons_self
      · exact List.mem_cons_of_mem _ (ih hsectioned h)
  | nested _ k b r _ ih =>
      obtain ⟨⟨-, hsection⟩, -, hr⟩ := hsectioned
      rcases List.mem_append.mp h with h | h
      · exact absurd (dot_of_entries (ne_nil_of_isSection hsection) _ h) hdot
      · exact List.mem_cons_of_mem _ (ih hr h)

/-- What is not in a section is set once. -/
theorem entries_unique (hsectioned : m.Sectioned []) (hdistinct : m.Distinct) (hdot : kDot ∉ path)
    {v v' : Bytes} (h : (path, v) ∈ m.entries []) (h' : (path, v') ∈ m.entries []) : v = v' := by
  induction m with
  | nil => cases h
  | scalar _ k a r ih =>
      have hr : r.Sectioned [] := hsectioned
      rcases List.mem_cons.mp h with heq | hmem
      · rcases List.mem_cons.mp h' with heq' | hmem'
        · exact (Prod.mk.inj heq).2.trans (Prod.mk.inj heq').2.symm
        · cases heq
          exact absurd (mem_keys_of_entries hr hdot hmem') hdistinct.1
      · rcases List.mem_cons.mp h' with heq' | hmem'
        · cases heq'
          exact absurd (mem_keys_of_entries hr hdot hmem) hdistinct.1
        · exact ih hr hdistinct.2 hmem hmem'
  | nested _ k b r _ ih =>
      obtain ⟨⟨-, hsection⟩, -, hr⟩ := hsectioned
      have hbody : ∀ v, (path, v) ∉ b.entries (joinPath [] k) := fun v hv =>
        hdot (dot_of_entries (ne_nil_of_isSection hsection) _ hv)
      exact ih hr hdistinct.2.2 ((List.mem_append.mp h).resolve_left (hbody v))
        ((List.mem_append.mp h').resolve_left (hbody v'))

theorem mem_entries_of_line {l : YamlMap Nat} {n : Nat} {o : Outline} {v : Bytes}
    (ho : o ∈ l.lines n) (hv : o.value = some v) (above : Bytes) :
    ∃ path, (path, v) ∈ l.entries above := by
  induction l generalizing n above with
  | nil => cases ho
  | scalar _ k a r ih =>
      rcases List.mem_cons.mp ho with rfl | ho
      · cases hv
        exact ⟨_, List.mem_cons_self⟩
      · obtain ⟨path, hpath⟩ := ih ho above
        exact ⟨path, List.mem_cons_of_mem _ hpath⟩
  | nested m k b r ihb ih =>
      rcases List.mem_cons.mp ho with rfl | ho
      · cases hv
      · rcases List.mem_append.mp ho with ho | ho
        · obtain ⟨path, hpath⟩ := ihb ho (joinPath above k)
          exact ⟨path, List.mem_append_left _ hpath⟩
        · obtain ⟨path, hpath⟩ := ih ho above
          exact ⟨path, List.mem_append_right _ hpath⟩

/-- The value on a line is set: under its key if the line is not in a section,
and else under a path with a dot. -/
theorem entry_of_line {l : YamlMap Nat} {o : Outline} {v : Bytes} (hfits : l.Fits 0)
    (hsectioned : l.Sectioned []) (ho : o ∈ l.lines 0) (hv : o.value = some v) :
    ∃ path, (path, v) ∈ l.entries [] ∧ (o.indent = 0 → path = o.key) ∧
      (0 < o.indent → kDot ∈ path) := by
  induction l with
  | nil => cases ho
  | scalar _ k a r ih =>
      rcases List.mem_cons.mp ho with rfl | ho
      · cases hv
        exact ⟨k, List.mem_cons_self, fun _ => rfl, fun hlt => absurd hlt (Nat.lt_irrefl 0)⟩
      · obtain ⟨path, hpath, hindent⟩ := ih hfits hsectioned ho
        exact ⟨path, List.mem_cons_of_mem _ hpath, hindent⟩
  | nested m k b r _ ih =>
      obtain ⟨hdeep, -, hb, hr⟩ := hfits
      obtain ⟨⟨-, hsection⟩, -, hsr⟩ := hsectioned
      rcases List.mem_cons.mp ho with rfl | ho
      · cases hv
      · rcases List.mem_append.mp ho with ho | ho
        · obtain ⟨path, hpath⟩ := mem_entries_of_line ho hv (joinPath [] k)
          have hlt : 0 < o.indent := Nat.lt_of_lt_of_le hdeep (YamlMap.le_of_mem_lines hb ho)
          refine ⟨path, List.mem_append_left _ hpath, ?_, ?_⟩
          · exact fun hzero => absurd hzero (Nat.ne_of_gt hlt)
          · exact fun _ => dot_of_entries (ne_nil_of_isSection hsection) _ hpath
        · obtain ⟨path, hpath, hindent⟩ := ih hr hsr ho
          exact ⟨path, List.mem_append_right _ hpath, hindent⟩

end Entries

theorem not_quote_of_isDigit {c : UInt8} (h : isDigit c = true) : isQuote c = false := by
  obtain ⟨hsingle, hdouble, -⟩ := inert_of_keyChar (keyChar_of_isDigit h)
  simp [isQuote, hsingle, hdouble]

theorem isDigit_of_parseUint {s : Bytes} {v n : Nat} (h : parseUintFrom v s = some n) :
    ∀ c ∈ s, isDigit c = true := by
  induction s generalizing v with
  | nil => exact fun c hc => absurd hc List.not_mem_nil
  | cons c s ih =>
      rw [parseUintFrom] at h
      split at h
      · cases h
      · rename_i hc
        simp only at h
        split at h
        · cases h
        · intro d hd
          rcases List.mem_cons.mp hd with rfl | hd
          · simpa using hc
          · exact ih h d hd

theorem not_quote_of_all {s : Bytes} (h : (s.all fun c => !isQuote c) = true) :
    ∀ c ∈ s, isQuote c = false := by
  intro c hc
  have hnot := List.all_eq_true.mp h c hc
  rwa [Bool.not_eq_true'] at hnot

theorem not_quote_of_parseWithUnit {s : Bytes} {units : List (Bytes × Nat)} {n : Nat}
    (hunits : (units.all fun u => u.1.all fun c => !isQuote c) = true)
    (h : parseWithUnit s units = some n) :
    ∀ c ∈ s, isQuote c = false := by
  unfold parseWithUnit at h
  split at h
  · cases h
  · obtain ⟨unit, hdef⟩ : ∃ unit, unit = if (s.dropWhile isDigit).head? = some kSpace then
        (s.dropWhile isDigit).tail else s.dropWhile isDigit := ⟨_, rfl⟩
    simp only [← hdef] at h
    have hunit : ∀ c ∈ unit, isQuote c = false := by
      split at h
      · rename_i hnil
        rw [hnil]
        exact fun c hc => absurd hc List.not_mem_nil
      · split at h
        · cases h
        · rename_i scale hlookup
          obtain ⟨us₁, us₂, hmem, -⟩ := List.lookup_eq_some_iff.mp hlookup
          have hmem' : (unit, scale) ∈ units := hmem ▸ List.mem_append_right _ List.mem_cons_self
          exact not_quote_of_all (List.all_eq_true.mp hunits _ hmem')
    intro c hc
    rw [← @List.takeWhile_append_dropWhile _ isDigit s, List.mem_append] at hc
    rcases hc with hc | hc
    · exact not_quote_of_isDigit (List.mem_takeWhile_imp hc)
    · split at hdef
      · rename_i hspace
        cases hrest : s.dropWhile isDigit with
        | nil =>
            rw [hrest] at hc
            cases hc
        | cons d rest =>
            rw [hrest] at hc hspace hdef
            rcases List.mem_cons.mp hc with rfl | hc
            · cases hspace
              rfl
            · exact hunit c (hdef ▸ hc)
      · exact hunit c (hdef ▸ hc)

/-- Only a text has quote characters. -/
theorem text_of_quote {s : Setting} {v : Bytes} {c c' : RendezvousConfig}
    (h : setField s v c = .ok c') (hquote : ∃ d ∈ v, isQuote d = true) : s.kind = .text := by
  by_contra htext
  obtain ⟨d, hd, hq⟩ := hquote
  have hnone : ∀ {n : Nat}, parseValue s v = some n → isQuote d = false := by
    intro n hparse
    unfold parseValue at hparse
    split at hparse
    · unfold parseUint at hparse
      split at hparse
      · cases hparse
      · exact not_quote_of_isDigit (isDigit_of_parseUint hparse d hd)
    · exact not_quote_of_parseWithUnit rfl hparse d hd
    · exact not_quote_of_parseWithUnit rfl hparse d hd
    · split at hparse
      · rename_i hv
        subst hv
        exact not_quote_of_all rfl d hd
      · split at hparse
        · rename_i hv
          subst hv
          exact not_quote_of_all rfl d hd
        · cases hparse
    · cases hparse
  obtain ⟨hholds, -, -⟩ := setField_ok h
  rw [Holds, if_neg htext] at hholds
  rw [hnone hholds] at hq
  cases hq

theorem setField_of_setAll {es : List (Bytes × Bytes)} {c c' : RendezvousConfig} {path v : Bytes}
    (h : setAll es c = some c') (hmem : (path, v) ∈ es) :
    ∃ s c₁ c₂, s.path = path ∧ setField s v c₁ = .ok c₂ := by
  induction es generalizing c with
  | nil => cases hmem
  | cons e es ih =>
      obtain ⟨p, v'⟩ := e
      obtain ⟨s, c₁, hpath, hset, hrest⟩ := setAll_cons h
      rcases List.mem_cons.mp hmem with heq | hmem
      · cases heq
        exact ⟨s, c, c₁, hpath, hset⟩
      · exact ih hrest hmem

/-! ## Documents

The equivalence for a whole document, and the value that shows it can fail. -/

/-- A line of a document, between what comes before and after it.  A carriage
return at its end is not part of it. -/
structure AtLine (pre line post : Bytes) (crlf : Bool) : Prop where
  before : pre = [] ∨ pre.getLast? = some kNewline
  one : kNewline ∉ line
  ends : crlf = true ∨ line.getLast? ≠ some kReturn
  after : post = [] ∨ post.head? = some kNewline

/-- The document. -/
def around (pre line post : Bytes) (crlf : Bool) : Bytes := pre ++ (line ++ lineEnd crlf) ++ post

section Documents

variable {pre line post t : Bytes} {crlf : Bool} {cfg r : RendezvousConfig} {error : Bytes}

theorem AtLine.dropReturn (h : AtLine pre line post crlf) :
    dropReturn (line ++ lineEnd crlf) = line := by
  cases crlf with
  | true => exact dropReturn_append_return line
  | false =>
      have hlast := h.ends.resolve_left Bool.false_ne_true
      rw [lineEnd, if_neg Bool.false_ne_true, List.append_nil, Server.dropReturn, if_neg hlast]

/-- The lines of the document, with a comment behind the line and without. -/
theorem AtLine.rawLines (h : AtLine pre line post crlf) (hne : line ≠ []) :
    ∃ raws₁ raws₂, ∀ w, kNewline ∉ w →
      rawLines (around pre (line ++ w) post crlf) =
        raws₁ ++ (line ++ w ++ lineEnd crlf) :: raws₂ := by
  obtain ⟨raws₂, hline⟩ := rawLines_line h.after
  refine ⟨Server.rawLines pre, raws₂, fun w hw => ?_⟩
  rw [around, List.append_assoc, rawLines_append h.before]
  congr 1
  apply hline
  · rw [List.append_assoc]
    exact List.append_ne_nil_of_left_ne_nil hne _
  · rw [List.mem_append, List.mem_append]
    rintro ((hmem | hmem) | hmem)
    · exact h.one hmem
    · exact hw hmem
    · exact newline_not_mem_lineEnd crlf hmem

/-- A document that is accepted is laid out as a mapping whose values can be
set. -/
theorem layout_of_applyConfig {text : Bytes} (hok : (applyConfig text cfg error).ok = true)
    (hvalue : (applyConfig text cfg error).value = r) :
    ∃ (ls : List YamlLine) (l : YamlMap Nat), splitLines 0 false (rawLines text) = .ok ls ∧
      ls.map YamlLine.outline = l.lines 0 ∧ l.Fits 0 ∧ l.Distinct ∧ l.Sectioned [] ∧ setAll (l.entries []) cfg = some r := by
  obtain ⟨m, hparse, hsectioned, hset⟩ := (applyConfig_ok_iff text cfg error r).mp ⟨hok, hvalue⟩
  unfold parseYaml at hparse
  cases hsplit : splitLines 0 false (rawLines text) with
  | error e =>
      rw [hsplit] at hparse
      cases hparse
  | ok ls =>
      rw [hsplit] at hparse
      obtain ⟨l, hforget, hfits, hdistinct, hlines⟩ :=
        (parseLines_iff ls m.forget).mp ⟨m, hparse, rfl⟩
      refine ⟨ls, l, rfl, hlines, hfits, hdistinct, ?_, ?_⟩
      · rw [← YamlMap.sectioned_forget, hforget, YamlMap.sectioned_forget]
        exact hsectioned
      · rw [← YamlMap.entries_forget, hforget, YamlMap.entries_forget]
        exact hset

/-- The host to bind to is what its line says. -/
theorem bindHost_of_line {text raw v : Bytes} (hok : (applyConfig text cfg error).ok = true)
    (hvalue : (applyConfig text cfg error).value = r) (hmem : raw ∈ rawLines text)
    (hread : ReadAs raw (some ⟨0, Setting.bind.path, some v⟩)) : r.bindHost = v := by
  obtain ⟨ls, l, hsplit, hlines, hfits, hdistinct, hsectioned, hset⟩ :=
    layout_of_applyConfig hok hvalue
  have ho := mem_of_splitLines hsplit hmem hread
  rw [hlines] at ho
  obtain ⟨path, hentry, hpath, -⟩ := entry_of_line hfits hsectioned ho rfl
  cases hpath rfl
  have hdot : kDot ∉ Setting.bind.path := by decide
  have hlast := setAll_last hset .bind
  cases hes : lastOf (l.entries []) Setting.bind.path with
  | none => exact absurd rfl (lastOf_none hes _ hentry)
  | some v' =>
      rw [hes] at hlast
      rw [entries_unique hsectioned hdistinct hdot hentry (mem_of_lastOf hes)]
      exact hlast.1

/-- A value with a quote character is the host, and not in a section. -/
theorem bind_of_quote {text raw key v : Bytes} {n : Nat}
    (hok : (applyConfig text cfg error).ok = true) (hmem : raw ∈ rawLines text)
    (hread : ReadAs raw (some ⟨n, key, some v⟩)) (hquote : ∃ d ∈ v, isQuote d = true) :
    n = 0 ∧ key = Setting.bind.path := by
  obtain ⟨ls, l, hsplit, hlines, hfits, -, hsectioned, hset⟩ := layout_of_applyConfig hok rfl
  have ho := mem_of_splitLines hsplit hmem hread
  rw [hlines] at ho
  obtain ⟨path, hentry, htop, hdot⟩ := entry_of_line hfits hsectioned ho rfl
  obtain ⟨s, c₁, c₂, hpath, hfield⟩ := setField_of_setAll hset hentry
  have hbind : s = .bind := text_unique (text_of_quote hfield hquote) rfl
  subst hbind
  have hn : n = 0 := by
    by_contra hne
    have hmem := hdot (Nat.pos_of_ne_zero hne)
    rw [← hpath] at hmem
    exact absurd hmem (by decide)
  subst hn
  exact ⟨rfl, (htop rfl).symm.trans hpath.symm⟩

end Documents

/-- Behind a line with a value of a document that is accepted, a comment is put:
the document is then accepted with the same configuration exactly when the line
has a comment already or no quote is open at its end, as `strip_comment` follows
them. -/
theorem comments_transparent_iff (pre line post t : Bytes) (crlf : Bool) (cfg : RendezvousConfig)
    (error : Bytes) (hline : AtLine pre line post crlf) (hvalue : HasValue (line ++ lineEnd crlf))
    (ht : kNewline ∉ t) (hok : (applyConfig (around pre line post crlf) cfg error).ok = true) :
    ((applyConfig (around pre (line ++ kSpace :: kHash :: t) post crlf) cfg error).ok = true ∧
      (applyConfig (around pre (line ++ kSpace :: kHash :: t) post crlf) cfg error).value =
        (applyConfig (around pre line post crlf) cfg error).value) ↔
      Settled line := by
  obtain ⟨number, begun, l, hread, hv⟩ := hvalue
  have hne : unindented line ≠ [] := by
    intro hnil
    rw [readLine_eq hline.dropReturn, hnil] at hread
    cases hread
  have hline₀ : line ≠ [] := fun hnil => hne (by rw [hnil]; rfl)
  have hw : kNewline ∉ kSpace :: kHash :: t := @newline_not_mem_trailText (some t) (by
    intro t' ht'
    cases ht'
    exact ht)
  obtain ⟨raws₁, raws₂, hraws⟩ := hline.rawLines hline₀
  have hraws₀ := hraws [] List.not_mem_nil
  rw [List.append_nil] at hraws₀
  have hraws' := hraws _ hw
  obtain ⟨t', hraw'⟩ : ∃ t', dropReturn (line ++ kSpace :: kHash :: t ++ lineEnd crlf) =
      line ++ kSpace :: kHash :: t' := by
    obtain ⟨t', ht'⟩ := dropReturn_comment (line ++ [kSpace]) t crlf
    refine ⟨t', ?_⟩
    simpa only [List.append_assoc, List.singleton_append] using ht'
  constructor
  · rintro ⟨hok', hsame⟩
    by_contra hunsettled
    obtain ⟨v, hv⟩ := Option.ne_none_iff_exists'.mp hv
    obtain ⟨n, key, z, hz, hquote, hreads, hreads'⟩ :=
      readLine_unsettled hunsettled hread hv hline.dropReturn hraw'
    have hmem : line ++ lineEnd crlf ∈ rawLines (around pre line post crlf) := by
      rw [hraws₀]
      exact List.mem_append_right _ List.mem_cons_self
    have hmem' : line ++ kSpace :: kHash :: t ++ lineEnd crlf ∈
        rawLines (around pre (line ++ kSpace :: kHash :: t) post crlf) := by
      rw [hraws']
      exact List.mem_append_right _ List.mem_cons_self
    obtain ⟨rfl, rfl⟩ := bind_of_quote hok hmem hreads hquote
    have hhost := bindHost_of_line hok rfl hmem hreads
    have hhost' := bindHost_of_line hok' hsame hmem' hreads'
    rw [hhost] at hhost'
    exact hz (List.self_eq_append_right.mp hhost')
  · intro hsettled
    have hsplit : splitLines 0 false (rawLines (around pre (line ++ kSpace :: kHash :: t) post crlf)) =
        splitLines 0 false (rawLines (around pre line post crlf)) := by
      rw [hraws', hraws₀]
      exact splitLines_congr (readLine_settled hne hsettled hline.dropReturn hraw') _ _ _ _
    have hall : applyConfig (around pre (line ++ kSpace :: kHash :: t) post crlf) cfg error =
        applyConfig (around pre line post crlf) cfg error := by
      unfold applyConfig parseYaml
      rw [hsplit]
    rw [hall]
    exact ⟨hok, rfl⟩

/-- A comment behind a value in quotes with a hash in it, on a line that ends in
CRLF. -/
theorem comments_transparent_sample :
    (applyConfig (around [] (ascii "bind: 'it''s #1'" ++ ascii " # c") [kNewline] true) {} []).ok =
      true := by
  have hline : AtLine [] (ascii "bind: 'it''s #1'") [kNewline] true :=
    ⟨Or.inl rfl, by decide, Or.inl rfl, Or.inr rfl⟩
  have hvalue : HasValue (ascii "bind: 'it''s #1'" ++ lineEnd true) :=
    ⟨1, false, ⟨1, 0, ascii "bind", some (ascii "it's #1")⟩, by decide +kernel, by decide⟩
  have hsettled : Settled (ascii "bind: 'it''s #1'") := by
    intro st hst
    have hscan : scan .bare none (unindented (ascii "bind: 'it''s #1'")) =
        some (.bare, some kSingleQuote) := by decide +kernel
    rw [hscan] at hst
    cases hst
    rfl
  exact ((comments_transparent_iff [] _ [kNewline] (ascii " c") true {} [] hline hvalue (by decide)
    (by decide +kernel)).mpr hsettled).1

/-- An apostrophe in a plain value opens a quote for `strip_comment`: the
comment becomes part of the host. -/
theorem comments_not_transparent :
    ¬ ∀ (pre line post t : Bytes) (crlf : Bool) (cfg : RendezvousConfig) (error : Bytes),
      AtLine pre line post crlf → HasValue (line ++ lineEnd crlf) → kNewline ∉ t →
      (applyConfig (around pre line post crlf) cfg error).ok = true →
        (applyConfig (around pre (line ++ kSpace :: kHash :: t) post crlf) cfg error).ok = true ∧
        (applyConfig (around pre (line ++ kSpace :: kHash :: t) post crlf) cfg error).value =
          (applyConfig (around pre line post crlf) cfg error).value := by
  intro hall
  have hline : AtLine [] (ascii "bind: it's") [kNewline] false :=
    ⟨Or.inl rfl, by decide, Or.inr (by decide), Or.inr rfl⟩
  have hvalue : HasValue (ascii "bind: it's" ++ lineEnd false) :=
    ⟨1, false, ⟨1, 0, ascii "bind", some (ascii "it's")⟩, by decide +kernel, by decide⟩
  have hsame := (hall [] (ascii "bind: it's") [kNewline] (ascii " c") false {} [] hline hvalue
    (by decide) (by decide +kernel)).2
  have hhost : (applyConfig (around [] (ascii "bind: it's") [kNewline] false) {} []).value.bindHost =
      ascii "it's" := by
    decide +kernel
  have hhost' : (applyConfig (around [] (ascii "bind: it's" ++ kSpace :: kHash :: ascii " c")
      [kNewline] false) {} []).value.bindHost = ascii "it's # c" := by
    decide +kernel
  rw [hsame, hhost] at hhost'
  exact absurd hhost' (by decide)

end UConnect.Server
