/-
  Server/YamlScan.lean --- what `split_lines` makes of a line.

  Source: server/config.cpp, `strip_comment`, `parse_scalar` and `split_lines`.

  `strip_comment` follows the quotes of the whole line, `parse_scalar` those of
  a value that starts with one.  `scan` is where the first of the two is at the
  end of a text, one character at a time, and `Reads` says of a text what it
  takes for both to agree on it.
-/
import UConnect.Server.Yaml

set_option autoImplicit false

namespace UConnect.Server

open UConnect.Foundation UConnect.Crypto

/-! ## The scan for a comment

`strip_comment` as a state that follows the characters, and a text cut where a
comment starts. -/

/-- Where the loop of `strip_comment` is: outside quotes, in a quote, or after a
backslash. -/
inductive Mode where
  | bare
  | single
  | double
  | escape
  deriving DecidableEq, Repr

def Mode.next : Mode → UInt8 → Mode
  | .bare, c =>
      if c = kSingleQuote then .single else if c = kDoubleQuote then .double else .bare
  | .single, c => if c = kSingleQuote then .bare else .single
  | .double, c =>
      if c = kBackslash then .escape else if c = kDoubleQuote then .bare else .double
  | .escape, _ => .double

/-- A comment starts here: outside quotes, at the start or after a space. -/
def startsComment (m : Mode) (prev : Option UInt8) (c : UInt8) : Prop :=
  m = .bare ∧ c = kHash ∧ (prev = none ∨ prev = some kSpace)

instance startsComment.decidable (m : Mode) (prev : Option UInt8) (c : UInt8) :
    Decidable (startsComment m prev c) :=
  inferInstanceAs (Decidable (_ ∧ _ ∧ _))

/-- The scan of a text, from a mode and the character before; `none` if it meets
a comment. -/
def scan : Mode → Option UInt8 → Bytes → Option (Mode × Option UInt8)
  | m, prev, [] => some (m, prev)
  | m, prev, c :: s => if startsComment m prev c then none else scan (m.next c) (some c) s

/-- What comes before the comment. -/
def keep : Mode → Option UInt8 → Bytes → Bytes
  | _, _, [] => []
  | m, prev, c :: s => if startsComment m prev c then [] else c :: keep (m.next c) (some c) s

/-- The quote that the loop of `strip_comment` remembers. -/
def Mode.quote : Mode → Option UInt8
  | .bare => none
  | .single => some kSingleQuote
  | .double => some kDoubleQuote
  | .escape => some kDoubleQuote

section Scan

variable {m m' : Mode} {prev prev' : Option UInt8} {s t u : Bytes}

theorem startsComment_of_ne (h : m ≠ .bare) (c : UInt8) : ¬ startsComment m prev c :=
  fun hs => h hs.1

/-- The loop goes through a line one character at a time. -/
theorem stripFrom_eq_keep (s : Bytes) (hm : m ≠ .escape) (prev : Option UInt8) :
    stripFrom m.quote prev s = keep m prev s := by
  induction hlen : s.length using Nat.strong_induction_on generalizing s m prev with
  | _ len ih =>
      subst hlen
      cases s with
      | nil => rfl
      | cons c s =>
          have hrest : ∀ {m' : Mode}, m' ≠ .escape →
              stripFrom m'.quote (some c) s = keep m' (some c) s :=
            fun hm' => ih s.length (Nat.lt_succ_self _) s hm' (some c) rfl
          cases m with
          | escape => exact absurd rfl hm
          | single =>
              rw [keep, if_neg (startsComment_of_ne Mode.noConfusion c)]
              unfold stripFrom
              rw [if_neg fun h => absurd (Option.some.inj h.1) (by decide)]
              simp only [Mode.quote, Mode.next]
              rcases Decidable.em (c = kSingleQuote) with hc | hc
              · rw [if_pos hc, if_pos hc]
                exact congrArg _ (@hrest .bare Mode.noConfusion)
              · rw [if_neg hc, if_neg hc]
                exact congrArg _ (@hrest .single Mode.noConfusion)
          | double =>
              rw [keep, if_neg (startsComment_of_ne Mode.noConfusion c)]
              unfold stripFrom
              simp only [Mode.quote, Mode.next, true_and]
              rcases Decidable.em (c = kBackslash) with hc | hc
              · -- the escaped character is passed over
                rw [if_pos hc, if_pos hc]
                cases s with
                | nil => rfl
                | cons e s =>
                    have hlt : s.length < (c :: e :: s).length := by
                      simp only [List.length_cons]
                      omega
                    have hafter := @ih s.length hlt .double s Mode.noConfusion (some e) rfl
                    rw [keep, if_neg (startsComment_of_ne Mode.noConfusion e)]
                    simp only [Mode.next]
                    rw [← hafter]
                    rfl
              · rw [if_neg hc, if_neg hc]
                rcases Decidable.em (c = kDoubleQuote) with hc' | hc'
                · rw [if_pos hc', if_pos hc']
                  exact congrArg _ (@hrest .bare Mode.noConfusion)
                · rw [if_neg hc', if_neg hc']
                  exact congrArg _ (@hrest .double Mode.noConfusion)
          | bare =>
              unfold stripFrom keep
              rw [if_neg fun h => Option.some_ne_none _ h.1.symm]
              simp only [Mode.quote, Mode.next, startsComment, true_and]
              rcases Decidable.em (c = kSingleQuote) with hc | hc
              · subst hc
                rw [if_pos (Or.inl rfl), if_neg fun h => absurd h.1 (by decide), if_pos rfl]
                exact congrArg _ (@hrest .single Mode.noConfusion)
              · rcases Decidable.em (c = kDoubleQuote) with hc' | hc'
                · subst hc'
                  rw [if_pos (Or.inr rfl), if_neg fun h => absurd h.1 (by decide), if_neg hc,
                    if_pos rfl]
                  exact congrArg _ (@hrest .double Mode.noConfusion)
                · rw [if_neg (by simp [hc, hc']), if_neg hc, if_neg hc']
                  split
                  · rfl
                  · exact congrArg _ (@hrest .bare Mode.noConfusion)

theorem stripComment_eq_keep (s : Bytes) : stripComment s = keep .bare none s :=
  @stripFrom_eq_keep .bare s Mode.noConfusion none

theorem scan_append (m : Mode) (prev : Option UInt8) (t u : Bytes) :
    scan m prev (t ++ u) = (scan m prev t).bind fun st => scan st.1 st.2 u := by
  induction t generalizing m prev with
  | nil => rfl
  | cons c t ih =>
      rw [List.cons_append, scan, scan]
      split
      · rfl
      · exact ih _ _

theorem keep_append (h : scan m prev t = some (m', prev')) (u : Bytes) :
    keep m prev (t ++ u) = t ++ keep m' prev' u := by
  induction t generalizing m prev with
  | nil =>
      cases h
      rfl
  | cons c t ih =>
      rw [scan] at h
      rw [List.cons_append, keep]
      split at h
      · cases h
      · rename_i hnot
        rw [if_neg hnot, ih h]
        rfl

/-- A comment hides the rest of the line. -/
theorem keep_append_of_none (h : scan m prev t = none) (u : Bytes) :
    keep m prev (t ++ u) = keep m prev t := by
  induction t generalizing m prev with
  | nil => cases h
  | cons c t ih =>
      rw [scan] at h
      rw [List.cons_append, keep, keep]
      split at h
      · rename_i hstarts
        rw [if_pos hstarts, if_pos hstarts]
      · rename_i hnot
        rw [if_neg hnot, if_neg hnot, ih h]

theorem keep_of_scan (h : scan m prev t = some (m', prev')) : keep m prev t = t := by
  have hkeep := keep_append h []
  rw [List.append_nil] at hkeep
  rw [hkeep]
  exact List.append_nil t

end Scan

/-! ## Texts without quotes

They leave the scan as it was. -/

/-- A character that means nothing to the scan. -/
def Inert (c : UInt8) : Prop := c ≠ kSingleQuote ∧ c ≠ kDoubleQuote ∧ c ≠ kHash

theorem scan_inert {t : Bytes} (h : ∀ c ∈ t, Inert c) (prev : Option UInt8) :
    ∃ prev', scan .bare prev t = some (.bare, prev') := by
  induction t generalizing prev with
  | nil => exact ⟨prev, rfl⟩
  | cons c t ih =>
      obtain ⟨hsingle, hdouble, hhash⟩ := h c List.mem_cons_self
      have hnot : ¬ startsComment .bare prev c := fun hs => hhash hs.2.1
      rw [scan, if_neg hnot]
      simp only [Mode.next, if_neg hsingle, if_neg hdouble]
      exact ih (fun c' hc' => h c' (List.mem_cons_of_mem _ hc')) (some c)

theorem inert_of_keyChar {c : UInt8} (h : keyChar c = true) : Inert c := by
  refine ⟨?_, ?_, ?_⟩
  · rintro rfl
    cases h
  · rintro rfl
    cases h
  · rintro rfl
    cases h

theorem inert_of_blank {c : UInt8} (h : isBlank c = true) : Inert c := by
  refine ⟨?_, ?_, ?_⟩
  · rintro rfl
    cases h
  · rintro rfl
    cases h
  · rintro rfl
    cases h

theorem not_blank_of_keyChar {c : UInt8} (h : keyChar c = true) : isBlank c = false := by
  rw [← Bool.not_eq_true]
  intro hblank
  rcases (Bool.or_eq_true _ _).mp hblank with hc | hc
  · cases of_decide_eq_true hc
    cases h
  · cases of_decide_eq_true hc
    cases h

/-! ## Quoted texts

Whatever was quoted, the scan is outside quotes behind it. -/

/-- The scan stays inside the quotes that `quote` writes. -/
theorem scan_quoteChar (c : UInt8) (prev : Option UInt8) :
    ∃ prev', scan .double prev (quoteChar c) = some (.double, prev') := by
  have hnot : ∀ {m : Mode} {p : Option UInt8} {d : UInt8}, m ≠ .bare → ¬ startsComment m p d :=
    fun hm => startsComment_of_ne hm _
  unfold quoteChar
  rcases Decidable.em (c = kBackslash) with hc | hc
  · rw [if_pos hc]
    exact ⟨_, rfl⟩
  · rw [if_neg hc]
    rcases Decidable.em (c = kDoubleQuote) with hc' | hc'
    · rw [if_pos hc']
      exact ⟨_, rfl⟩
    · rw [if_neg hc']
      split
      · exact ⟨_, rfl⟩
      · split
        · exact ⟨_, rfl⟩
        · refine ⟨some c, ?_⟩
          rw [scan, if_neg (hnot Mode.noConfusion)]
          simp only [Mode.next, if_neg hc, if_neg hc']
          rfl

theorem scan_quoteChars (s : Bytes) (prev : Option UInt8) :
    ∃ prev', scan .double prev (s.flatMap quoteChar) = some (.double, prev') := by
  induction s generalizing prev with
  | nil => exact ⟨prev, rfl⟩
  | cons c s ih =>
      obtain ⟨prev₁, hchar⟩ := scan_quoteChar c prev
      obtain ⟨prev₂, hrest⟩ := ih prev₁
      refine ⟨prev₂, ?_⟩
      rw [List.flatMap_cons, scan_append, hchar]
      exact hrest

theorem scan_quote (s : Bytes) (prev : Option UInt8) :
    scan .bare prev (quote s) = some (.bare, some kDoubleQuote) := by
  have hopen : ¬ startsComment .bare prev kDoubleQuote := fun hs => absurd hs.2.1 (by decide)
  obtain ⟨prev', hrest⟩ := scan_quoteChars s (some kDoubleQuote)
  rw [quote, List.cons_append, scan, if_neg hopen]
  change scan .double (some kDoubleQuote) _ = _
  rw [scan_append, hrest]
  rfl

theorem readDouble_quoteChar (c : UInt8) (t : Bytes) :
    readDouble (quoteChar c ++ t) = (readDouble t).map (c :: ·) := by
  unfold quoteChar
  rcases Decidable.em (c = kBackslash) with hc | hc
  · subst hc
    rfl
  · rw [if_neg hc]
    rcases Decidable.em (c = kDoubleQuote) with hc' | hc'
    · subst hc'
      rfl
    · rw [if_neg hc']
      rcases Decidable.em (c = kNewline) with hn | hn
      · subst hn
        rfl
      · rw [if_neg hn]
        rcases Decidable.em (c = kTab) with ht | ht
        · subst ht
          rfl
        · rw [if_neg ht, List.singleton_append]
          conv_lhs => unfold readDouble
          rw [if_neg hc, if_neg hc']

theorem readDouble_quoteChars (s : Bytes) :
    readDouble (s.flatMap quoteChar ++ [kDoubleQuote]) = .ok s := by
  induction s with
  | nil => rfl
  | cons c s ih =>
      rw [List.flatMap_cons, List.append_assoc, readDouble_quoteChar, ih]
      rfl

/-- `parse_scalar` reads what `quote` writes. -/
theorem parseScalar_quote (s : Bytes) : parseScalar (quote s) = .ok s :=
  readDouble_quoteChars s

theorem newline_not_mem_quote (s : Bytes) : kNewline ∉ quote s := by
  have hchar : ∀ c, kNewline ∉ quoteChar c := by
    intro c
    unfold quoteChar
    repeat' split
    · decide
    · decide
    · decide
    · decide
    · rename_i hn _
      simpa using fun h => hn (Eq.symm h)
  rw [quote, List.mem_append, List.mem_cons, List.mem_flatMap]
  rintro ((hq | ⟨c, -, hc⟩) | hq)
  · exact absurd hq (by decide)
  · exact hchar c hc
  · exact absurd hq (by decide)

/-! ## Values

Texts on which the two agree. -/

/-- The text is read as the value, and the scan for a comment goes over it. -/
structure Reads (text value : Bytes) : Prop where
  scan : ∀ prev, ∃ prev', scan .bare prev text = some (.bare, prev')
  head : ∃ c t, text = c :: t ∧ isBlank c = false
  last : ∃ t c, text = t ++ [c] ∧ isBlank c = false ∧ c ≠ kReturn
  parse : parseScalar text = .ok value

theorem reads_quote (s : Bytes) : Reads (quote s) s where
  scan prev := ⟨_, scan_quote s prev⟩
  head := ⟨_, _, rfl, rfl⟩
  last := ⟨_, _, rfl, rfl, by decide⟩
  parse := parseScalar_quote s

/-- A plain value. -/
theorem reads_keyChars {t : Bytes} (hne : t ≠ []) (h : ∀ c ∈ t, keyChar c = true) : Reads t t := by
  refine ⟨scan_inert fun c hc => inert_of_keyChar (h c hc), ?_, ?_, ?_⟩
  · cases t with
    | nil => exact absurd rfl hne
    | cons c t => exact ⟨c, t, rfl, not_blank_of_keyChar (h c List.mem_cons_self)⟩
  · refine ⟨t.dropLast, t.getLast hne, (List.dropLast_append_getLast hne).symm, ?_, ?_⟩
    · exact not_blank_of_keyChar (h _ (List.getLast_mem hne))
    · intro hr
      have hkey := h _ (List.getLast_mem hne)
      rw [hr] at hkey
      cases hkey
  · cases t with
    | nil => exact absurd rfl hne
    | cons c t =>
        have hc := h c List.mem_cons_self
        obtain ⟨hsingle, hdouble, -⟩ := inert_of_keyChar hc
        have hother : ∀ d : UInt8, keyChar d = false → c ≠ d := by
          rintro d hd rfl
          rw [hd] at hc
          cases hc
        simp only [parseScalar, readPlain, if_neg hsingle, if_neg hdouble, hother 91 rfl,
          hother 123 rfl, hother 38 rfl, hother 42 rfl, hother 33 rfl, hother 124 rfl, hother 62 rfl,
          or_self, if_false]

/-! ## Lines

A line with a key, a value and a comment, read in one piece. -/

theorem rdropWhile_append_of_blank {s y : Bytes} (hy : ∀ c ∈ y, isBlank c = true) :
    (s ++ y).rdropWhile isBlank = s.rdropWhile isBlank := by
  induction y using List.reverseRecOn with
  | nil => rw [List.append_nil]
  | append_singleton y c ih =>
      rw [← List.append_assoc, List.rdropWhile_concat_pos _ _ _ (hy c (by simp))]
      exact ih fun c' hc' => hy c' (List.mem_append_left _ hc')

/-- Blanks around a text that neither starts nor ends with one are taken away. -/
theorem trim_padded {x s y t : Bytes} {c d : UInt8} (hx : ∀ c ∈ x, isBlank c = true)
    (hy : ∀ c ∈ y, isBlank c = true) (hhead : s.head? = some c) (hc : isBlank c = false)
    (hlast : s = t ++ [d]) (hd : isBlank d = false) : trim (x ++ s ++ y) = s := by
  obtain ⟨s', rfl⟩ : ∃ s', s = c :: s' := by
    cases s with
    | nil => cases hhead
    | cons c' s' =>
        cases hhead
        exact ⟨s', rfl⟩
  unfold trim
  rw [List.append_assoc, List.dropWhile_append_of_pos hx, List.cons_append,
    List.dropWhile_cons_of_neg (by rw [hc]; exact Bool.false_ne_true), ← List.cons_append,
    rdropWhile_append_of_blank hy, hlast]
  exact List.rdropWhile_concat_neg _ _ _ (by rw [hd]; exact Bool.false_ne_true)

theorem trim_blank {s : Bytes} (h : ∀ c ∈ s, isBlank c = true) : trim s = [] := by
  unfold trim
  rw [List.dropWhile_eq_nil_iff.mpr h]
  rfl

/-- What a line says after its key: nothing, or a value. -/
inductive Tells : Bytes → Option Bytes → Prop
  | opens : Tells [] none
  | value {text v : Bytes} (h : Reads text v) : Tells (kSpace :: text) (some v)

/-- What may follow on a line: nothing, or a comment. -/
inductive Trails : Bytes → Prop
  | nothing : Trails []
  | comment (t : Bytes) : Trails (kSpace :: kHash :: t)

section Entries

variable {key tail trail : Bytes} {value : Option Bytes}

theorem Tells.scan (h : Tells tail value) (prev : Option UInt8) :
    ∃ prev', Server.scan .bare prev tail = some (.bare, prev') := by
  cases h with
  | opens => exact ⟨prev, rfl⟩
  | value hreads => exact hreads.scan (some kSpace)

theorem scan_entry (hkey : ∀ c ∈ key, keyChar c = true) (htail : Tells tail value) :
    ∃ prev, scan .bare none (key ++ kColon :: tail) = some (.bare, prev) := by
  obtain ⟨prev₁, hscan₁⟩ := scan_inert (fun c hc => inert_of_keyChar (hkey c hc)) none
  obtain ⟨prev₂, hscan₂⟩ := htail.scan (some kColon)
  refine ⟨prev₂, ?_⟩
  rw [scan_append, hscan₁]
  exact hscan₂

theorem keep_trail (htrail : Trails trail) (prev : Option UInt8) :
    ∀ c ∈ keep .bare prev trail, isBlank c = true := by
  cases htrail with
  | nothing => exact fun c hc => absurd hc List.not_mem_nil
  | comment t =>
      intro c hc
      change c ∈ [kSpace] at hc
      cases List.mem_singleton.mp hc
      rfl

/-- A line without its indentation and comment. -/
theorem trim_entry (hne : key ≠ []) (hkey : ∀ c ∈ key, keyChar c = true)
    (htail : Tells tail value) (htrail : Trails trail) :
    trim (stripComment (key ++ kColon :: tail ++ trail)) = key ++ kColon :: tail := by
  obtain ⟨prev, hscan⟩ := scan_entry hkey htail
  rw [stripComment_eq_keep, keep_append hscan]
  obtain ⟨c, key', rfl⟩ := List.exists_cons_of_ne_nil hne
  have hc := not_blank_of_keyChar (hkey c List.mem_cons_self)
  obtain ⟨t, d, hlast, hd⟩ : ∃ t d, kColon :: tail = t ++ [d] ∧ isBlank d = false := by
    cases htail with
    | opens => exact ⟨[], kColon, rfl, rfl⟩
    | value hreads =>
        obtain ⟨t, d, htext, hd, -⟩ := hreads.last
        exact ⟨kColon :: kSpace :: t, d, by rw [htext]; rfl, hd⟩
  have hpadded := @trim_padded [] ((c :: key') ++ kColon :: tail) (keep .bare prev trail)
    ((c :: key') ++ t) c d (fun c hc => absurd hc List.not_mem_nil) (keep_trail htrail prev) rfl hc
    (by rw [hlast, List.append_assoc]) hd
  exact hpadded

theorem takeWhile_key (hkey : ∀ c ∈ key, keyChar c = true) :
    (key ++ kColon :: tail).takeWhile keyChar = key ∧
      (key ++ kColon :: tail).dropWhile keyChar = kColon :: tail := by
  rw [List.takeWhile_append_of_pos hkey, List.dropWhile_append_of_pos hkey]
  exact ⟨List.append_nil key, rfl⟩

theorem readEntry_entry (hne : key ≠ []) (hkey : ∀ c ∈ key, keyChar c = true)
    (htail : Tells tail value) (number n : Nat) :
    readEntry number n (key ++ kColon :: tail) = .ok ⟨number, n, key, value⟩ := by
  obtain ⟨htake, hdrop⟩ := @takeWhile_key key tail hkey
  unfold readEntry
  simp only [htake, hdrop]
  cases htail with
  | opens =>
      rw [if_neg (by simp [hne])]
      rfl
  | @value text v hreads =>
      obtain ⟨c, t, hhead, hc⟩ := hreads.head
      obtain ⟨t', d, hlast, hd, -⟩ := hreads.last
      have htrim : trim (kSpace :: text) = text := by
        have hpadded := @trim_padded [kSpace] text [] t' c d
          (fun c hc => by cases List.mem_singleton.mp hc; rfl)
          (fun c hc => absurd hc List.not_mem_nil) (by rw [hhead]; rfl) hc hlast hd
        rwa [List.append_nil] at hpadded
      rw [if_neg (by simp [hne]), htrim, if_neg (by rw [hhead]; exact List.cons_ne_nil _ _),
        hreads.parse]

/-- What has a colon after its key is not refused, and not passed over. -/
theorem readContent_colon (hne : key ≠ []) (hkey : ∀ c ∈ key, keyChar c = true)
    (tail : Bytes) (number n : Nat) (begun : Bool) :
    readContent number begun n false (key ++ kColon :: tail) =
      (readEntry number n (key ++ kColon :: tail)).map some := by
  have hcolon : ∀ s : Bytes, kColon ∉ s → key ++ kColon :: tail ≠ s := by
    rintro s hs rfl
    exact hs (List.mem_append_right _ List.mem_cons_self)
  have hlist : ¬ [kDash, kSpace] <+: key ++ kColon :: tail := by
    rintro ⟨u, hu⟩
    obtain ⟨c, key', rfl⟩ := List.exists_cons_of_ne_nil hne
    cases key' with
    | nil => cases hu
    | cons d key' =>
        cases hu
        exact absurd (hkey kSpace (by simp)) (by decide)
  have hhead : ∀ d : UInt8, keyChar d = false → (key ++ kColon :: tail).head? ≠ some d := by
    intro d hd heq
    obtain ⟨c, key', rfl⟩ := List.exists_cons_of_ne_nil hne
    cases heq
    rw [hkey _ List.mem_cons_self] at hd
    cases hd
  unfold readContent
  rw [if_neg (hcolon [] List.not_mem_nil), if_neg Bool.false_ne_true,
    if_neg fun h => hcolon _ (by decide) h.1,
    if_neg (not_or.mpr ⟨hcolon _ (by decide), hcolon _ (by decide)⟩),
    if_neg (not_or.mpr ⟨hcolon _ (by decide), hlist⟩),
    if_neg (not_or.mpr ⟨hhead 91 rfl, hhead 123 rfl⟩)]

/-- A key, perhaps a value, and perhaps a comment are read as such. -/
theorem readContent_entry (hne : key ≠ []) (hkey : ∀ c ∈ key, keyChar c = true)
    (htail : Tells tail value) (number n : Nat) (begun : Bool) :
    readContent number begun n false (key ++ kColon :: tail) =
      .ok (some ⟨number, n, key, value⟩) := by
  rw [readContent_colon hne hkey, readEntry_entry hne hkey htail]
  rfl

end Entries

theorem spaces_replicate {n : Nat} {s : Bytes} (h : s.head? ≠ some kSpace) :
    (List.replicate n kSpace ++ s).takeWhile (· = kSpace) = List.replicate n kSpace ∧
      (List.replicate n kSpace ++ s).dropWhile (· = kSpace) = s := by
  have hall : ∀ c ∈ List.replicate n kSpace, decide (c = kSpace) = true :=
    fun c hc => decide_eq_true (List.eq_of_mem_replicate hc)
  rw [List.takeWhile_append_of_pos hall, List.dropWhile_append_of_pos hall]
  cases s with
  | nil => exact ⟨List.append_nil _, rfl⟩
  | cons c s =>
      have hc : c ≠ kSpace := fun hc => h (congrArg some hc)
      simp [hc]

theorem readLine_entry {key tail trail raw : Bytes} {value : Option Bytes} {n : Nat}
    (hne : key ≠ []) (hkey : ∀ c ∈ key, keyChar c = true) (htail : Tells tail value)
    (htrail : Trails trail)
    (hraw : dropReturn raw = List.replicate n kSpace ++ (key ++ kColon :: tail ++ trail))
    (number : Nat) (begun : Bool) :
    readLine number begun raw = .ok (some ⟨number, n, key, value⟩) := by
  obtain ⟨c, key', hkey'⟩ := List.exists_cons_of_ne_nil hne
  have hc : keyChar c = true := hkey c (by rw [hkey']; exact List.mem_cons_self)
  have hhead : (key ++ kColon :: tail ++ trail).head? = some c := by
    rw [hkey']
    rfl
  obtain ⟨htake, hdrop⟩ := @spaces_replicate n (key ++ kColon :: tail ++ trail) (by
    rw [hhead]
    rintro ⟨⟩
    cases hc)
  have htab : decide ((key ++ kColon :: tail ++ trail).head? = some kTab) = false := by
    rw [hhead]
    apply decide_eq_false
    rintro ⟨⟩
    cases hc
  unfold readLine
  simp only
  rw [hraw, htake, hdrop, htab, trim_entry hne hkey htail htrail, List.length_replicate]
  exact readContent_entry hne hkey htail number n begun

/-- A line that has nothing but blanks, or spaces and a comment, says nothing. -/
theorem readLine_nothing {raw : Bytes}
    (h : (∀ c ∈ dropReturn raw, isBlank c = true) ∨
      ∃ n t, dropReturn raw = List.replicate n kSpace ++ kHash :: t)
    (number : Nat) (begun : Bool) : readLine number begun raw = .ok none := by
  have hempty : trim (stripComment ((dropReturn raw).dropWhile (· = kSpace))) = [] := by
    rcases h with hblank | ⟨n, t, heq⟩
    · have hrest : ∀ c ∈ (dropReturn raw).dropWhile (· = kSpace), isBlank c = true :=
        fun c hc => hblank c ((List.dropWhile_suffix _).subset hc)
      obtain ⟨prev, hscan⟩ := scan_inert (t := (dropReturn raw).dropWhile (· = kSpace))
        (fun c hc => inert_of_blank (hrest c hc)) none
      rw [stripComment_eq_keep, keep_of_scan hscan]
      exact trim_blank hrest
    · obtain ⟨-, hdrop⟩ := @spaces_replicate n (kHash :: t) (by
        rintro ⟨⟩)
      rw [heq, hdrop, stripComment_eq_keep, keep, if_pos ⟨rfl, rfl, Or.inl rfl⟩]
      rfl
  unfold readLine readContent
  simp only
  rw [hempty, if_pos rfl]

end UConnect.Server
