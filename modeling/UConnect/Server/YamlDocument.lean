/-
  Server/YamlDocument.lean --- documents, as they are written.

  Source: server/config.cpp, `split_lines` and `parse_yaml`.

  A document is a list of lines: keys with their values in quotes, between them
  blank lines and comments, and comments behind the keys.  Each line ends in LF
  or CRLF.

  The indentation, the comments and the line ends are data of the document, so
  one theorem covers every layout of every mapping.
-/
import UConnect.Server.YamlBlocks
import UConnect.Server.YamlScan

set_option autoImplicit false

namespace UConnect.Server

open UConnect.Foundation UConnect.Crypto

/-! ## Writing

The documents that are written, with all the freedom they have in blanks,
comments and line ends. -/

/-- What is written on a line. -/
inductive DocLine where
  | blank (ws : Bytes)
  | comment (indent : Nat) (text : Bytes)
  | entry (o : Outline) (trail : Option Bytes)

/-- A comment behind something. -/
def trailText : Option Bytes → Bytes
  | none => []
  | some t => kSpace :: kHash :: t

/-- A value behind its key. -/
def valueText : Option Bytes → Bytes
  | none => []
  | some v => kSpace :: quote v

def DocLine.text : DocLine → Bytes
  | .blank ws => ws
  | .comment n t => List.replicate n kSpace ++ kHash :: t
  | .entry o trail =>
      List.replicate o.indent kSpace ++ (o.key ++ kColon :: valueText o.value ++ trailText trail)

/-- Blank lines are blank, comments do not go on on the next line, and keys are
keys. -/
def DocLine.Sound : DocLine → Prop
  | .blank ws => ∀ c ∈ ws, isBlank c = true
  | .comment _ t => kNewline ∉ t
  | .entry o trail => o.key ≠ [] ∧ (∀ c ∈ o.key, keyChar c = true) ∧ ∀ t ∈ trail, kNewline ∉ t

/-- What comes between a line and the newline. -/
def lineEnd (crlf : Bool) : Bytes := if crlf then [kReturn] else []

/-- A line and how it ends. -/
def rawLine (d : DocLine × Bool) : Bytes := d.1.text ++ lineEnd d.2

/-- The document start, with its comment and how its line ends. -/
def startLine (s : Option Bytes × Bool) : Bytes :=
  ascii "---" ++ trailText s.1 ++ lineEnd s.2

/-- The text of a document, with or without a document start. -/
def document (start : Option (Option Bytes × Bool)) (ds : List (DocLine × Bool)) : Bytes :=
  (start.toList.map startLine ++ ds.map rawLine).flatMap fun raw => raw ++ [kNewline]

/-- The key on a line, if there is one. -/
def DocLine.outline : DocLine → Option Outline
  | .entry o _ => some o
  | _ => none

/-- The keys of a document. -/
def outlines (ds : List (DocLine × Bool)) : List Outline := ds.filterMap fun d => d.1.outline

/-! ## Reading

Each line comes back as its outline, or as nothing. -/

theorem rawLines_cons {x : Bytes} (h : kNewline ∉ x) (rest : Bytes) :
    rawLines (x ++ [kNewline] ++ rest) = x :: rawLines rest := by
  induction x with
  | nil => rfl
  | cons c x ih =>
      have hc : c ≠ kNewline := fun hc => h (hc ▸ List.mem_cons_self)
      have hx := ih fun hx => h (List.mem_cons_of_mem _ hx)
      rw [List.append_assoc] at hx
      rw [List.append_assoc, List.cons_append, rawLines, if_neg hc, hx]

theorem rawLines_flatMap {raws : List Bytes} (h : ∀ raw ∈ raws, kNewline ∉ raw) :
    rawLines (raws.flatMap fun raw => raw ++ [kNewline]) = raws := by
  induction raws with
  | nil => rfl
  | cons raw raws ih =>
      rw [List.flatMap_cons, rawLines_cons (h raw List.mem_cons_self),
        ih fun raw' hraw' => h raw' (List.mem_cons_of_mem _ hraw')]

theorem dropReturn_append_return (x : Bytes) : dropReturn (x ++ [kReturn]) = x := by
  unfold dropReturn
  rw [List.getLast?_concat, if_pos rfl, List.dropLast_concat]

theorem dropReturn_of_last {t : Bytes} {c : UInt8} (hc : c ≠ kReturn) :
    dropReturn (t ++ [c]) = t ++ [c] := by
  unfold dropReturn
  rw [List.getLast?_concat, if_neg fun h => hc (Option.some.inj h)]

theorem dropReturn_lineEnd {x : Bytes} (hx : dropReturn x = x) (crlf : Bool) :
    dropReturn (x ++ lineEnd crlf) = x := by
  cases crlf with
  | true => exact dropReturn_append_return x
  | false =>
      rw [lineEnd, if_neg Bool.false_ne_true, List.append_nil]
      exact hx

/-- At most the end of a comment is dropped. -/
theorem dropReturn_comment (x t : Bytes) (crlf : Bool) :
    ∃ t', dropReturn (x ++ kHash :: t ++ lineEnd crlf) = x ++ kHash :: t' := by
  rcases Decidable.em (dropReturn (x ++ kHash :: t) = x ++ kHash :: t) with hsame | hdrops
  · exact ⟨t, dropReturn_lineEnd hsame crlf⟩
  · rcases List.eq_nil_or_concat t with rfl | ⟨t', c, rfl⟩
    · exact absurd (dropReturn_of_last (by decide)) hdrops
    · rw [List.concat_eq_append, ← List.cons_append, ← List.append_assoc] at hdrops ⊢
      rcases Decidable.em (c = kReturn) with rfl | hc
      · cases crlf with
        | true =>
            refine ⟨t' ++ [kReturn], ?_⟩
            rw [lineEnd, if_pos rfl, dropReturn_append_return, List.append_assoc, List.cons_append]
        | false =>
            refine ⟨t', ?_⟩
            rw [lineEnd, if_neg Bool.false_ne_true, List.append_nil, dropReturn_append_return]
      · exact absurd (dropReturn_of_last hc) hdrops

theorem dropReturn_trail {x trail : Bytes} (hx : dropReturn x = x) (h : Trails trail)
    (crlf : Bool) :
    ∃ trail', Trails trail' ∧ dropReturn (x ++ trail ++ lineEnd crlf) = x ++ trail' := by
  cases h with
  | nothing =>
      rw [List.append_nil]
      exact ⟨[], .nothing, by rw [dropReturn_lineEnd hx, List.append_nil]⟩
  | comment t =>
      obtain ⟨t', ht'⟩ := dropReturn_comment (x ++ [kSpace]) t crlf
      refine ⟨_, .comment t', ?_⟩
      simpa only [List.append_assoc, List.singleton_append] using ht'

theorem trails_trailText (trail : Option Bytes) : Trails (trailText trail) := by
  cases trail with
  | none => exact .nothing
  | some t => exact .comment t

theorem tells_valueText (value : Option Bytes) : Tells (valueText value) value := by
  cases value with
  | none => exact .opens
  | some v => exact .value (reads_quote v)

theorem newline_not_mem_of_all {s : Bytes} {p : UInt8 → Bool} (hp : p kNewline = false)
    (h : ∀ c ∈ s, p c = true) : kNewline ∉ s := by
  intro hmem
  rw [h _ hmem] at hp
  cases hp

theorem newline_not_mem_trailText {trail : Option Bytes} (h : ∀ t ∈ trail, kNewline ∉ t) :
    kNewline ∉ trailText trail := by
  cases trail with
  | none => exact List.not_mem_nil
  | some t =>
      intro hmem
      rcases List.mem_cons.mp hmem with hc | hmem
      · exact absurd hc (by decide)
      · rcases List.mem_cons.mp hmem with hc | hmem
        · exact absurd hc (by decide)
        · exact h t rfl hmem

theorem newline_not_mem_replicate (n : Nat) : kNewline ∉ List.replicate n kSpace :=
  fun hmem => absurd (List.eq_of_mem_replicate hmem) (by decide)

theorem newline_not_mem_lineEnd (crlf : Bool) : kNewline ∉ lineEnd crlf := by
  cases crlf <;> decide

theorem DocLine.Sound.newline_not_mem {d : DocLine} (h : d.Sound) : kNewline ∉ d.text := by
  cases d with
  | blank ws => exact newline_not_mem_of_all (by decide) h
  | comment n t =>
      rw [DocLine.text, List.mem_append, List.mem_cons]
      rintro (hmem | hc | hmem)
      · exact newline_not_mem_replicate n hmem
      · exact absurd hc (by decide)
      · exact h hmem
  | entry o trail =>
      obtain ⟨-, hkey, htrail⟩ := h
      rw [DocLine.text, List.mem_append, List.mem_append, List.mem_append, List.mem_cons]
      rintro (hmem | (hmem | hc | hmem) | hmem)
      · exact newline_not_mem_replicate _ hmem
      · exact newline_not_mem_of_all (by decide) hkey hmem
      · exact absurd hc (by decide)
      · cases hv : o.value with
        | none =>
            rw [hv] at hmem
            cases hmem
        | some v =>
            rw [hv] at hmem
            rcases List.mem_cons.mp hmem with hc | hmem
            · exact absurd hc (by decide)
            · exact newline_not_mem_quote v hmem
      · exact newline_not_mem_trailText htrail hmem

/-- Before the comment, a line with a key does not end in a carriage return. -/
theorem dropReturn_entry (o : Outline) :
    dropReturn (List.replicate o.indent kSpace ++ (o.key ++ kColon :: valueText o.value)) =
      List.replicate o.indent kSpace ++ (o.key ++ kColon :: valueText o.value) := by
  cases hv : o.value with
  | none =>
      have hdrop := @dropReturn_of_last (List.replicate o.indent kSpace ++ o.key) kColon (by decide)
      simpa [valueText] using hdrop
  | some v =>
      have hdrop := @dropReturn_of_last (List.replicate o.indent kSpace ++
        (o.key ++ kColon :: kSpace :: kDoubleQuote :: v.flatMap quoteChar)) kDoubleQuote (by decide)
      simpa [valueText, quote] using hdrop

/-- The line is read as a key at an indentation, or as nothing. -/
def ReadAs (raw : Bytes) (o : Option Outline) : Prop :=
  ∀ number begun, readLine number begun raw =
    .ok (o.map fun o => ⟨number, o.indent, o.key, o.value⟩)

/-- The lines of a document are its keys. -/
theorem splitLines_of_readAs {rs : List (Bytes × Option Outline)} (h : ∀ r ∈ rs, ReadAs r.1 r.2)
    (number : Nat) (begun : Bool) :
    ∃ ls, splitLines number begun (rs.map Prod.fst) = .ok ls ∧
      ls.map YamlLine.outline = rs.filterMap Prod.snd := by
  induction rs generalizing number begun with
  | nil => exact ⟨[], rfl, rfl⟩
  | cons r rs ih =>
      obtain ⟨raw, o⟩ := r
      have hrest := fun begun => ih (fun r' hr' => h r' (List.mem_cons_of_mem _ hr')) (number + 1)
        begun
      rw [List.map_cons, splitLines, h _ List.mem_cons_self]
      cases o with
      | none => exact hrest begun
      | some o =>
          obtain ⟨ls, hsplit, hlines⟩ := hrest true
          refine ⟨⟨number + 1, o.indent, o.key, o.value⟩ :: ls, ?_, ?_⟩
          · simp only [Option.map_some, hsplit]
            rfl
          · rw [List.map_cons, hlines]
            rfl

/-- A line is read for what it is. -/
theorem readAs_rawLine {d : DocLine × Bool} (h : d.1.Sound) : ReadAs (rawLine d) d.1.outline := by
  obtain ⟨d, crlf⟩ := d
  cases d with
  | blank ws =>
      have hlast : dropReturn ws = ws := by
        unfold dropReturn
        rw [if_neg fun hr => by cases h _ (List.mem_of_getLast? hr)]
      have hdrop : dropReturn (rawLine (.blank ws, crlf)) = ws := dropReturn_lineEnd hlast crlf
      apply readLine_nothing
      left
      rw [hdrop]
      exact h
  | comment n t =>
      obtain ⟨t', ht'⟩ := dropReturn_comment (List.replicate n kSpace) t crlf
      exact readLine_nothing (Or.inr ⟨n, t', ht'⟩)
  | entry o trail =>
      obtain ⟨hne, hkey, -⟩ := h
      obtain ⟨trail', htrail, hdrop⟩ := dropReturn_trail (dropReturn_entry o)
        (trails_trailText trail) crlf
      refine readLine_entry hne hkey (tells_valueText o.value) htrail ?_
      rw [rawLine, DocLine.text]
      simpa only [List.append_assoc] using hdrop

theorem splitLines_rawLines {ds : List (DocLine × Bool)} (h : ∀ d ∈ ds, d.1.Sound) (number : Nat)
    (begun : Bool) :
    ∃ ls, splitLines number begun (ds.map rawLine) = .ok ls ∧
      ls.map YamlLine.outline = outlines ds := by
  have hread := @splitLines_of_readAs (ds.map fun d => (rawLine d, d.1.outline)) (by
    intro r hr
    obtain ⟨d, hd, rfl⟩ := List.mem_map.mp hr
    exact readAs_rawLine (h d hd)) number begun
  rw [List.map_map, List.filterMap_map] at hread
  exact hread

/-- The document start says nothing. -/
theorem readLine_start (s : Option Bytes × Bool) (number : Nat) :
    readLine number false (startLine s) = .ok none := by
  obtain ⟨trail, htrail, hdrop⟩ := dropReturn_trail
    (@dropReturn_of_last [kDash, kDash] kDash (by decide)) (trails_trailText s.1) s.2
  have hscan : scan .bare none (ascii "---") = some (.bare, some kDash) := by decide
  have htrim : trim (stripComment (ascii "---" ++ trail)) = ascii "---" := by
    rw [stripComment_eq_keep, keep_append hscan]
    exact @trim_padded [] (ascii "---") _ [kDash, kDash] kDash kDash
      (fun c hc => absurd hc List.not_mem_nil) (keep_trail htrail _) (by decide) (by decide)
      (by decide) (by decide)
  have hraw : dropReturn (startLine s) = ascii "---" ++ trail := hdrop
  have hhead : (ascii "---" ++ trail).head? = some kDash := rfl
  obtain ⟨-, hspaces⟩ := @spaces_replicate 0 (ascii "---" ++ trail) (by
    rw [hhead]
    decide)
  rw [List.replicate_zero, List.nil_append] at hspaces
  unfold readLine readContent
  simp only
  rw [hraw, hspaces, htrim, if_neg (by decide), hhead]
  rfl

/-- `split_lines` finds the keys of a document. -/
theorem splitLines_document {start : Option (Option Bytes × Bool)} {ds : List (DocLine × Bool)}
    (hstart : ∀ s ∈ start, ∀ t ∈ s.1, kNewline ∉ t) (hds : ∀ d ∈ ds, d.1.Sound) :
    ∃ ls, splitLines 0 false (rawLines (document start ds)) = .ok ls ∧
      ls.map YamlLine.outline = outlines ds := by
  have hraws : ∀ raw ∈ start.toList.map startLine ++ ds.map rawLine, kNewline ∉ raw := by
    intro raw hraw
    rcases List.mem_append.mp hraw with hraw | hraw
    · obtain ⟨s, hs, rfl⟩ := List.mem_map.mp hraw
      have htrail := newline_not_mem_trailText (hstart s (Option.mem_toList.mp hs))
      rw [startLine, List.mem_append, List.mem_append]
      rintro ((hmem | hmem) | hmem)
      · exact absurd hmem (by decide)
      · exact htrail hmem
      · exact newline_not_mem_lineEnd _ hmem
    · obtain ⟨d, hd, rfl⟩ := List.mem_map.mp hraw
      rw [rawLine, List.mem_append]
      rintro (hmem | hmem)
      · exact (hds d hd).newline_not_mem hmem
      · exact newline_not_mem_lineEnd _ hmem
  rw [document, rawLines_flatMap hraws]
  cases start with
  | none => exact splitLines_rawLines hds 0 false
  | some s =>
      rw [Option.toList_some, List.map_singleton, List.singleton_append, splitLines,
        readLine_start]
      exact splitLines_rawLines hds 1 false

/-! ## What a document says

The outlines are a layout, so the document is read as its mapping; otherwise it
is refused. -/

/-- A document whose keys are laid out as a mapping, at whatever indentation and
with whatever comments and line ends, is read as that mapping; one that repeats
a key within a mapping, or has a line at the indentation of no open mapping that
opens no section either, is refused. -/
theorem yaml_documents (start : Option (Option Bytes × Bool)) (ds : List (DocLine × Bool))
    (hstart : ∀ s ∈ start, ∀ t ∈ s.1, kNewline ∉ t) (hds : ∀ d ∈ ds, d.1.Sound) :
    (∀ l : YamlMap Nat, l.Fits 0 → l.Distinct → outlines ds = l.lines 0 →
      ∃ m, parseYaml (document start ds) = .ok m ∧ m.forget = l.forget) ∧
    (Repeats (outlines ds) ∨ Misplaced [] (outlines ds) →
      ∃ e, parseYaml (document start ds) = .error e) := by
  obtain ⟨ls, hsplit, hlines⟩ := splitLines_document hstart hds
  unfold parseYaml
  simp only [hsplit]
  rw [← hlines]
  refine ⟨fun l hfits hdistinct hl => ?_, parseLines_refuses⟩
  exact (parseLines_iff ls l.forget).mpr ⟨l, rfl, hfits, hdistinct, hl⟩

/-- A document with a section, a value that needs quotes and comments on both
lines. -/
def sampleDocument : List (DocLine × Bool) :=
  [(.comment 1 (ascii "relays"), true), (.entry ⟨0, ascii "relay", none⟩ (some []), false),
    (.blank [kTab], false), (.entry ⟨4, ascii "max", some [kHash, kReturn, kDoubleQuote]⟩
      (some (ascii "it's")), true)]

theorem yaml_documents_sample :
    ∃ m, parseYaml (document (some (none, true)) sampleDocument) = .ok m ∧
      m.forget = .nested () (ascii "relay")
        (.scalar () (ascii "max") [kHash, kReturn, kDoubleQuote] .nil) .nil := by
  have hds : ∀ d ∈ sampleDocument, d.1.Sound := by
    intro d hd
    simp only [sampleDocument, List.mem_cons, List.not_mem_nil, or_false] at hd
    rcases hd with rfl | rfl | rfl | rfl
    · exact (by decide : kNewline ∉ ascii "relays")
    · exact ⟨by decide, List.all_eq_true.mp rfl, fun t ht => by cases ht; decide⟩
    · exact @List.all_eq_true _ isBlank [kTab] |>.mp rfl
    · exact ⟨by decide, List.all_eq_true.mp rfl, fun t ht => by cases ht; decide⟩
  have hstart : ∀ s ∈ (some (none, true) : Option (Option Bytes × Bool)),
      ∀ t ∈ s.1, kNewline ∉ t := by
    rintro s ⟨⟩ t ⟨⟩
  refine (yaml_documents (some (none, true)) sampleDocument hstart hds).1 (.nested 4 (ascii "relay")
    (.scalar 0 (ascii "max") [kHash, kReturn, kDoubleQuote] .nil) .nil) ?_ ?_ rfl
  · exact ⟨by decide, by decide, trivial, trivial⟩
  · exact ⟨List.not_mem_nil, ⟨List.not_mem_nil, trivial⟩, trivial⟩

end UConnect.Server
