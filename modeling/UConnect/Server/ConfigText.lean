/-
  Server/ConfigText.lean --- a configuration that is printed is read back.

  Source: server/config.cpp, `to_yaml` and `apply_config`.

  `to_yaml` goes through the schema and opens a section whenever it changes.
  The rows of a section follow each other there, so what is printed is the
  layout of a mapping: the rows that are in no section, and then each section
  with its rows.
-/
import UConnect.Server.ConfigEntries
import UConnect.Server.YamlDocument

set_option autoImplicit false

namespace UConnect.Server

open UConnect.Foundation UConnect.Crypto UConnect.Wire

/-! ## The schema by sections

The rows outside any section come first, and each section's rows stand together. -/

/-- The rows that are in no section. -/
def topRows : List Setting := [.port, .bind, .threads]

/-- The sections, each with its rows. -/
def sections : List (Bytes × List Setting) :=
  [(ascii "connections", [.connectionsMax, .connectionsMaxPerIp, .connectionsIdleTimeout,
      .connectionsFirstFrameTimeout]),
    (ascii "registry", [.registryStaleAfter, .registryMaxPerIpPerTopic, .registryMaxPerIpTotal,
      .registryMaxEntries, .registryMaxTopics]),
    (ascii "relay", [.relayEnabled, .relayExpiry, .relayMax, .relayMaxPerIp, .relayMaxBytes,
      .relayJoinTimeout, .relayIdleTimeout, .relaySpliceBuffer]),
    (ascii "rate_limits", [.rateControlBytesPerSec, .rateControlBurstBytes, .rateUdpBytesPerSec,
      .rateUdpBurstBytes])]

theorem schema_eq : schema = topRows ++ sections.flatMap Prod.snd := rfl

/-- What is in a section is printed as being there. -/
structure IsSection (g : Bytes × List Setting) : Prop where
  key : g.1 ≠ [] ∧ ∀ c ∈ g.1, keyChar c = true
  rows : g.2 ≠ [] ∧ (g.2.map fun s => leafOf s.path).Nodup
  here : ∀ s ∈ g.2, sectionOf s.path = g.1 ∧ joinPath g.1 (leafOf s.path) = s.path
  known : findField (joinPath [] g.1) = none ∧ isSection (joinPath [] g.1) = true

theorem isSection_sections : ∀ g ∈ sections, IsSection g := by
  have hall : ∀ g ∈ sections, (g.1 ≠ [] ∧ g.1.all keyChar = true) ∧
      (g.2 ≠ [] ∧ (g.2.map fun s => leafOf s.path).Nodup) ∧
      (∀ s ∈ g.2, sectionOf s.path = g.1 ∧ joinPath g.1 (leafOf s.path) = s.path) ∧
      findField (joinPath [] g.1) = none ∧ isSection (joinPath [] g.1) = true := by
    decide +kernel
  intro g hg
  obtain ⟨⟨hne, hkey⟩, hrows, hhere, hknown⟩ := hall g hg
  exact ⟨⟨hne, List.all_eq_true.mp hkey⟩, hrows, hhere, hknown⟩

theorem topRows_here : ∀ s ∈ topRows, sectionOf s.path = [] ∧ joinPath [] (leafOf s.path) = s.path := by
  decide +kernel

theorem keys_nodup :
    (topRows.map (fun s => leafOf s.path) ++ sections.map Prod.fst).Nodup := by
  decide +kernel

theorem leafOf_key (s : Setting) :
    leafOf s.path ≠ [] ∧ ∀ c ∈ leafOf s.path, keyChar c = true := by
  have hall : ∀ s ∈ schema, leafOf s.path ≠ [] ∧ (leafOf s.path).all keyChar = true := by
    decide +kernel
  obtain ⟨hne, hkey⟩ := hall s (mem_schema s)
  exact ⟨hne, List.all_eq_true.mp hkey⟩

/-! ## The lines

What is printed, as lines with a key and perhaps a value. -/

/-- A row's value, as it is printed. -/
def fieldText (c : RendezvousConfig) (s : Setting) : Bytes :=
  if s.kind = .text then quote c.bindHost else showValue s (s.get c)

/-- A row's value, as it is read. -/
def fieldValue (c : RendezvousConfig) (s : Setting) : Bytes :=
  if s.kind = .text then c.bindHost else showValue s (s.get c)

/-- The line of a row. -/
def rowLine (c : RendezvousConfig) (n : Nat) (s : Setting) : Bytes × Option Outline :=
  (List.replicate n kSpace ++ (leafOf s.path ++ kColon :: kSpace :: fieldText c s),
    some ⟨n, leafOf s.path, some (fieldValue c s)⟩)

/-- The lines of a section. -/
def sectionLines (c : RendezvousConfig) (g : Bytes × List Setting) : List (Bytes × Option Outline) :=
  ([], none) :: (g.1 ++ [kColon], some ⟨0, g.1, none⟩) :: g.2.map (rowLine c 2)

/-- The lines of a configuration. -/
def configLines (c : RendezvousConfig) : List (Bytes × Option Outline) :=
  (ascii "# uconnect-rendezvous configuration", none) ::
    (topRows.map (rowLine c 0) ++ sections.flatMap (sectionLines c))

/-- The text of some lines. -/
def linesText (rs : List (Bytes × Option Outline)) : Bytes :=
  rs.flatMap fun r => r.1 ++ [kNewline]

section Writing

variable (c : RendezvousConfig) {out here name : Bytes} {s : Setting} {ss : List Setting}

theorem linesText_cons (r : Bytes × Option Outline) (rs : List (Bytes × Option Outline)) :
    linesText (r :: rs) = r.1 ++ [kNewline] ++ linesText rs :=
  List.flatMap_cons

theorem linesText_append (rs rs' : List (Bytes × Option Outline)) :
    linesText (rs ++ rs') = linesText rs ++ linesText rs' :=
  List.flatMap_append

/-- A row of the section that is open is a line more. -/
theorem writeField_same (hs : sectionOf s.path = name) :
    writeField c (out, name) s =
      (out ++ (rowLine c (if name = [] then 0 else 2) s).1 ++ [kNewline], name) := by
  unfold writeField rowLine fieldText
  simp only [hs, ne_eq, not_true_eq_false, if_false]
  rcases Decidable.em (name = []) with rfl | hne
  · simp
  · simp [if_neg hne, List.replicate]

/-- At another section, its key comes first. -/
theorem writeField_opens (hs : sectionOf s.path = name) (hne : name ≠ here) :
    writeField c (out, here) s =
      writeField c (out ++ [kNewline] ++ name ++ [kColon, kNewline], name) s := by
  unfold writeField
  simp only [hs, if_pos hne, ne_eq, not_true_eq_false, if_false]

theorem foldl_writeField_same (hss : ∀ s ∈ ss, sectionOf s.path = name) (out : Bytes) :
    ss.foldl (writeField c) (out, name) =
      (out ++ linesText (ss.map (rowLine c (if name = [] then 0 else 2))), name) := by
  induction ss generalizing out with
  | nil =>
      rw [List.foldl_nil, List.map_nil]
      exact congrArg (·, name) (List.append_nil out).symm
  | cons s ss ih =>
      rw [List.foldl_cons, writeField_same c (hss s List.mem_cons_self),
        ih (fun s' hs' => hss s' (List.mem_cons_of_mem _ hs')), List.map_cons, linesText_cons,
        List.append_assoc, List.append_assoc, List.append_assoc]

theorem foldl_writeField_section {g : Bytes × List Setting} (hg : IsSection g) (hne : g.1 ≠ here)
    (out : Bytes) :
    g.2.foldl (writeField c) (out, here) = (out ++ linesText (sectionLines c g), g.1) := by
  obtain ⟨name, ss⟩ := g
  have hss : ∀ s ∈ ss, sectionOf s.path = name := fun s hs => (hg.here s hs).1
  have hopens : ss.foldl (writeField c) (out, here) =
      ss.foldl (writeField c) (out ++ [kNewline] ++ name ++ [kColon, kNewline], name) := by
    cases ss with
    | nil => exact absurd rfl hg.rows.1
    | cons s ss =>
        rw [List.foldl_cons, writeField_opens c (hss s List.mem_cons_self) hne, List.foldl_cons]
  have hdeep : (if name = [] then 0 else 2) = 2 := if_neg hg.key.1
  change ss.foldl (writeField c) (out, here) = _
  rw [hopens, foldl_writeField_same c hss, hdeep, sectionLines, linesText_cons, linesText_cons]
  simp

theorem foldl_writeField_sections {gs : List (Bytes × List Setting)}
    (hgs : ∀ g ∈ gs, IsSection g) (hnodup : (here :: gs.map Prod.fst).Nodup) (out : Bytes) :
    ((gs.flatMap Prod.snd).foldl (writeField c) (out, here)).1 =
      out ++ linesText (gs.flatMap (sectionLines c)) := by
  induction gs generalizing out here with
  | nil => exact (List.append_nil out).symm
  | cons g gs ih =>
      rw [List.map_cons, List.nodup_cons] at hnodup
      have hne : g.1 ≠ here := fun heq => hnodup.1 (heq ▸ List.mem_cons_self)
      rw [List.flatMap_cons, List.foldl_append,
        foldl_writeField_section c (hgs g List.mem_cons_self) hne,
        ih (fun g' hg' => hgs g' (List.mem_cons_of_mem _ hg')) hnodup.2, List.flatMap_cons,
        linesText_append, List.append_assoc]

/-- What `to_yaml` prints. -/
theorem toYaml_eq : toYaml c = linesText (configLines c) := by
  have hnodup : ([] :: sections.map Prod.fst : List Bytes).Nodup := by decide
  unfold toYaml
  rw [schema_eq, List.foldl_append,
    foldl_writeField_same c (fun s hs => (topRows_here s hs).1), if_pos rfl,
    foldl_writeField_sections c isSection_sections hnodup, configLines, linesText_cons,
    linesText_append, List.append_assoc]

end Writing

/-! ## Reading the lines

Each line is read as what it was printed from. -/

section Reading

variable (c : RendezvousConfig)

theorem reads_fieldText (s : Setting) : Reads (fieldText c s) (fieldValue c s) := by
  unfold fieldText fieldValue
  split
  · exact reads_quote c.bindHost
  · exact reads_showValue s (s.get c)

theorem newline_not_mem_fieldText (s : Setting) : kNewline ∉ fieldText c s := by
  unfold fieldText
  split
  · exact newline_not_mem_quote c.bindHost
  · exact newline_not_mem_of_all (by decide) (keyChar_showValue s (s.get c))

/-- A line that the scanner takes for what it is. -/
def LineOk (r : Bytes × Option Outline) : Prop := ReadAs r.1 r.2 ∧ kNewline ∉ r.1

theorem lineOk_rowLine (n : Nat) (s : Setting) : LineOk (rowLine c n s) := by
  obtain ⟨hne, hkey⟩ := leafOf_key s
  have hreads := reads_fieldText c s
  obtain ⟨t, d, hlast, -, hd⟩ := hreads.last
  constructor
  · have hdrop : dropReturn (rowLine c n s).1 = List.replicate n kSpace ++
        (leafOf s.path ++ kColon :: kSpace :: fieldText c s ++ []) := by
      have hall := @dropReturn_of_last
        (List.replicate n kSpace ++ (leafOf s.path ++ kColon :: kSpace :: t)) d hd
      unfold rowLine
      rw [hlast]
      simpa only [List.append_assoc, List.cons_append, List.append_nil] using hall
    exact readLine_entry hne hkey (.value hreads) .nothing hdrop
  · rw [rowLine, List.mem_append, List.mem_append, List.mem_cons, List.mem_cons]
    rintro (hmem | hmem | hc | hc | hmem)
    · exact newline_not_mem_replicate n hmem
    · exact newline_not_mem_of_all (by decide) hkey hmem
    · exact absurd hc (by decide)
    · exact absurd hc (by decide)
    · exact newline_not_mem_fieldText c s hmem

theorem lineOk_sectionLines {g : Bytes × List Setting} (hg : IsSection g) :
    ∀ r ∈ sectionLines c g, LineOk r := by
  obtain ⟨hne, hkey⟩ := hg.key
  intro r hr
  rw [sectionLines, List.mem_cons, List.mem_cons, List.mem_map] at hr
  rcases hr with rfl | rfl | ⟨s, -, rfl⟩
  · exact ⟨readLine_nothing (Or.inl fun b hb => absurd hb List.not_mem_nil), List.not_mem_nil⟩
  · constructor
    · have hdrop : dropReturn (g.1 ++ [kColon]) =
          List.replicate 0 kSpace ++ (g.1 ++ kColon :: [] ++ []) := by
        rw [dropReturn_of_last (by decide), List.append_nil]
        rfl
      exact readLine_entry hne hkey .opens .nothing hdrop
    · rw [List.mem_append, List.mem_singleton]
      rintro (hmem | hc)
      · exact newline_not_mem_of_all (by decide) hkey hmem
      · exact absurd hc (by decide)
  · exact lineOk_rowLine c 2 s

theorem lineOk_configLines : ∀ r ∈ configLines c, LineOk r := by
  intro r hr
  rw [configLines, List.mem_cons, List.mem_append, List.mem_map, List.mem_flatMap] at hr
  rcases hr with rfl | ⟨s, -, rfl⟩ | ⟨g, hg, hr⟩
  · refine ⟨readLine_nothing (Or.inr ⟨0, ascii " uconnect-rendezvous configuration", ?_⟩), ?_⟩
    · decide
    · decide
  · exact lineOk_rowLine c 0 s
  · exact lineOk_sectionLines c (isSection_sections g hg) r hr

end Reading

/-! ## The mapping

The lines laid out are the mapping of the schema. -/

/-- Rows, before other entries. -/
def rowsMap (c : RendezvousConfig) (ss : List Setting) (rest : YamlMap Nat) : YamlMap Nat :=
  ss.foldr (fun s m => .scalar 0 (leafOf s.path) (fieldValue c s) m) rest

/-- Sections. -/
def sectionsMap (c : RendezvousConfig) (gs : List (Bytes × List Setting)) : YamlMap Nat :=
  gs.foldr (fun g m => .nested 2 g.1 (rowsMap c g.2 .nil) m) .nil

/-- The mapping that is printed. -/
def configMap (c : RendezvousConfig) : YamlMap Nat := rowsMap c topRows (sectionsMap c sections)

section Mapping

variable (c : RendezvousConfig) {ss : List Setting} {gs : List (Bytes × List Setting)}
  {rest : YamlMap Nat} {n : Nat} {above : Bytes}

theorem lines_rowsMap (ss : List Setting) (rest : YamlMap Nat) (n : Nat) :
    (rowsMap c ss rest).lines n = (ss.map (rowLine c n)).filterMap Prod.snd ++ rest.lines n := by
  induction ss with
  | nil => rfl
  | cons s ss ih => exact congrArg (_ :: ·) ih

theorem lines_sectionsMap (gs : List (Bytes × List Setting)) :
    (sectionsMap c gs).lines 0 = (gs.flatMap (sectionLines c)).filterMap Prod.snd := by
  induction gs with
  | nil => rfl
  | cons g gs ih =>
      have hhead : (sectionLines c g).filterMap Prod.snd =
          ⟨0, g.1, none⟩ :: (g.2.map (rowLine c 2)).filterMap Prod.snd := rfl
      rw [List.flatMap_cons, List.filterMap_append, ← ih, hhead]
      change _ :: ((rowsMap c g.2 .nil).lines 2 ++ (sectionsMap c gs).lines 0) = _
      rw [lines_rowsMap, YamlMap.lines, List.append_nil, List.cons_append]

theorem lines_configMap : (configMap c).lines 0 = (configLines c).filterMap Prod.snd := by
  rw [configMap, lines_rowsMap, lines_sectionsMap, configLines, ← List.filterMap_append]
  rfl

theorem fits_rowsMap (h : rest.Fits n) : (rowsMap c ss rest).Fits n := by
  induction ss with
  | nil => exact h
  | cons s ss ih => exact ih

theorem fits_sectionsMap (hgs : ∀ g ∈ gs, IsSection g) : (sectionsMap c gs).Fits 0 := by
  induction gs with
  | nil => trivial
  | cons g gs ih =>
      have hne : rowsMap c g.2 .nil ≠ .nil := by
        obtain ⟨s, ss, hss⟩ := List.exists_cons_of_ne_nil (hgs g List.mem_cons_self).rows.1
        rw [hss]
        rintro ⟨⟩
      exact ⟨by decide, hne, fits_rowsMap c trivial,
        ih fun g' hg' => hgs g' (List.mem_cons_of_mem _ hg')⟩

theorem keys_rowsMap (ss : List Setting) (rest : YamlMap Nat) :
    (rowsMap c ss rest).keys = ss.map (fun s => leafOf s.path) ++ rest.keys := by
  induction ss with
  | nil => rfl
  | cons s ss ih => exact congrArg (_ :: ·) ih

theorem keys_sectionsMap (gs : List (Bytes × List Setting)) :
    (sectionsMap c gs).keys = gs.map Prod.fst := by
  induction gs with
  | nil => rfl
  | cons g gs ih => exact congrArg (_ :: ·) ih

theorem distinct_rowsMap (hkeys : (ss.map (fun s => leafOf s.path) ++ rest.keys).Nodup)
    (hrest : rest.Distinct) : (rowsMap c ss rest).Distinct := by
  induction ss with
  | nil => exact hrest
  | cons s ss ih =>
      rw [List.map_cons, List.cons_append, List.nodup_cons] at hkeys
      refine ⟨?_, ih hkeys.2⟩
      change _ ∉ (rowsMap c ss rest).keys
      rw [keys_rowsMap]
      exact hkeys.1

theorem distinct_sectionsMap (hgs : ∀ g ∈ gs, IsSection g) (hnames : (gs.map Prod.fst).Nodup) :
    (sectionsMap c gs).Distinct := by
  induction gs with
  | nil => trivial
  | cons g gs ih =>
      rw [List.map_cons, List.nodup_cons] at hnames
      refine ⟨?_, ?_, ih (fun g' hg' => hgs g' (List.mem_cons_of_mem _ hg')) hnames.2⟩
      · change _ ∉ (sectionsMap c gs).keys
        rw [keys_sectionsMap]
        exact hnames.1
      · refine @distinct_rowsMap c g.2 .nil ?_ trivial
        rw [YamlMap.keys, List.append_nil]
        exact (hgs g List.mem_cons_self).rows.2

/-- What is printed is read as the mapping. -/
theorem parseYaml_toYaml : ∃ m, parseYaml (toYaml c) = .ok m ∧ m.forget = (configMap c).forget := by
  have hok := lineOk_configLines c
  obtain ⟨ls, hsplit, hlines⟩ := splitLines_of_readAs (fun r hr => (hok r hr).1) 0 false
  have hraw : rawLines (toYaml c) = (configLines c).map Prod.fst := by
    rw [toYaml_eq, linesText, ← List.flatMap_map Prod.fst (fun raw => raw ++ [kNewline])]
    apply rawLines_flatMap
    intro raw hraw
    obtain ⟨r, hr, rfl⟩ := List.mem_map.mp hraw
    exact (hok r hr).2
  unfold parseYaml
  rw [hraw, hsplit]
  apply (parseLines_iff ls _).mpr
  refine ⟨configMap c, rfl, ?_, ?_, ?_⟩
  · exact fits_rowsMap c (fits_sectionsMap c isSection_sections)
  · apply distinct_rowsMap
    · rw [keys_sectionsMap]
      exact keys_nodup
    · exact distinct_sectionsMap c isSection_sections (List.nodup_append.mp keys_nodup).2.1
  · rw [hlines, lines_configMap]

/-- The rows in no section, and those of one, are under their own paths. -/
theorem entries_rowsMap (hss : ∀ s ∈ ss, joinPath above (leafOf s.path) = s.path)
    (rest : YamlMap Nat) :
    (rowsMap c ss rest).entries above =
      ss.map (fun s => (s.path, fieldValue c s)) ++ rest.entries above := by
  induction ss with
  | nil => rfl
  | cons s ss ih =>
      change (joinPath above (leafOf s.path), fieldValue c s) :: (rowsMap c ss rest).entries above = _
      rw [hss s List.mem_cons_self, ih fun s' hs' => hss s' (List.mem_cons_of_mem _ hs')]
      rfl

theorem entries_sectionsMap (hgs : ∀ g ∈ gs, IsSection g) :
    (sectionsMap c gs).entries [] =
      (gs.flatMap Prod.snd).map fun s => (s.path, fieldValue c s) := by
  induction gs with
  | nil => rfl
  | cons g gs ih =>
      have hg := hgs g List.mem_cons_self
      change (rowsMap c g.2 .nil).entries g.1 ++ (sectionsMap c gs).entries [] = _
      rw [entries_rowsMap c (fun s hs => (hg.here s hs).2),
        ih fun g' hg' => hgs g' (List.mem_cons_of_mem _ hg'), YamlMap.entries, List.append_nil,
        List.flatMap_cons, List.map_append]

theorem entries_configMap :
    (configMap c).entries [] = schema.map fun s => (s.path, fieldValue c s) := by
  rw [configMap, entries_rowsMap c (fun s hs => (topRows_here s hs).2),
    entries_sectionsMap c isSection_sections, schema_eq, List.map_append]

theorem sectioned_rowsMap (h : rest.Sectioned above) : (rowsMap c ss rest).Sectioned above := by
  induction ss with
  | nil => exact h
  | cons s ss ih => exact ih

theorem sectioned_sectionsMap (hgs : ∀ g ∈ gs, IsSection g) : (sectionsMap c gs).Sectioned [] := by
  induction gs with
  | nil => trivial
  | cons g gs ih =>
      exact ⟨(hgs g List.mem_cons_self).known, sectioned_rowsMap c trivial,
        ih fun g' hg' => hgs g' (List.mem_cons_of_mem _ hg')⟩

end Mapping

/-! ## Round trip

What is set by the mapping is what was printed, for a configuration in range. -/

section RoundTrip

variable {cfg : RendezvousConfig} {ss : List Setting}

/-- What is printed can be set. -/
theorem setAll_fieldValues (h : ∀ s, Within s cfg) (ss : List Setting) (base : RendezvousConfig) :
    ∃ r, setAll (ss.map fun s => (s.path, fieldValue cfg s)) base = some r := by
  induction ss generalizing base with
  | nil => exact ⟨base, rfl⟩
  | cons s ss ih =>
      obtain ⟨c₁, hset⟩ : ∃ c₁, setField s (fieldValue cfg s) base = .ok c₁ := by
        unfold fieldValue
        split
        · rename_i htext
          rw [setField, if_pos htext]
          exact ⟨_, rfl⟩
        · rename_i htext
          obtain ⟨hlo, hhi⟩ := h s htext
          exact ⟨_, setField_showValue htext hlo hhi base⟩
      obtain ⟨r, hr⟩ := ih c₁
      refine ⟨r, ?_⟩
      rw [List.map_cons, setAll, findField_path]
      simp only [hset, hr]

theorem lastOf_fieldValues {s : Setting} (hs : s ∈ ss) :
    lastOf (ss.map fun s => (s.path, fieldValue cfg s)) s.path = some (fieldValue cfg s) := by
  cases hlast : lastOf (ss.map fun s => (s.path, fieldValue cfg s)) s.path with
  | none => exact absurd rfl (lastOf_none hlast _ (List.mem_map.mpr ⟨s, hs, rfl⟩))
  | some v =>
      obtain ⟨s', -, heq⟩ := List.mem_map.mp (mem_of_lastOf hlast)
      obtain ⟨hpath, rfl⟩ := Prod.mk.inj heq
      rw [path_injective hpath]

/-- Rows that hold what is printed of them are the same. -/
theorem same_of_holds {s : Setting} {r : RendezvousConfig} (hwithin : Within s cfg)
    (h : Holds s (fieldValue cfg s) r) : Same s cfg r := by
  unfold Holds fieldValue at h
  rcases Decidable.em (s.kind = .text) with htext | htext
  · rw [if_pos htext, if_pos htext] at h
    have hbind : s = .bind := text_unique htext rfl
    subst hbind
    exact ⟨rfl, fun _ => h⟩
  · rw [if_neg htext, if_neg htext, parseValue_showValue htext (hwithin htext).2] at h
    exact ⟨(Option.some.inj h).symm, fun htext' => absurd htext' htext⟩

end RoundTrip

/-- A configuration within the bounds of the schema, with whatever host to bind
to, is printed as a document that sets any configuration to it; and a document
that cannot be applied leaves the configuration as it is. -/
theorem config_round_trip :
    (∀ cfg base : RendezvousConfig, ∀ error : Bytes,
      (∀ s ∈ schema, s.kind ≠ .text → s.lo ≤ s.get cfg ∧ s.get cfg ≤ s.hi) →
        (applyConfig (toYaml cfg) base error).ok = true ∧
        (∀ s ∈ schema, s.get (applyConfig (toYaml cfg) base error).value = s.get cfg) ∧
        (applyConfig (toYaml cfg) base error).value.bindHost = cfg.bindHost) ∧
    (∀ (text : Bytes) (cfg : RendezvousConfig) (error : Bytes),
      (applyConfig text cfg error).ok = false → (applyConfig text cfg error).value = cfg) := by
  refine ⟨?_, fun text cfg error h => applyConfig_failed h⟩
  intro cfg base error hbounds
  have hwithin : ∀ s, Within s cfg := fun s => hbounds s (mem_schema s)
  obtain ⟨m, hparse, hforget⟩ := parseYaml_toYaml cfg
  obtain ⟨r, hr⟩ := setAll_fieldValues hwithin schema base
  have hsectioned : m.Sectioned [] := by
    rw [← YamlMap.sectioned_forget, hforget, YamlMap.sectioned_forget]
    exact sectioned_rowsMap cfg (sectioned_sectionsMap cfg isSection_sections)
  have hentries : m.entries [] = schema.map fun s => (s.path, fieldValue cfg s) := by
    rw [← YamlMap.entries_forget, hforget, YamlMap.entries_forget, entries_configMap]
  rw [← hentries] at hr
  obtain ⟨hok, hvalue⟩ := (applyConfig_ok_iff (toYaml cfg) base error r).mpr
    ⟨m, hparse, hsectioned, hr⟩
  have hsame : ∀ s, Same s cfg r := by
    intro s
    have hlast := setAll_last hr s
    rw [hentries, lastOf_fieldValues (mem_schema s)] at hlast
    exact same_of_holds (hwithin s) hlast.1
  rw [hvalue]
  exact ⟨hok, fun s _ => (hsame s).1, (hsame .bind).2 rfl⟩

/-- With a host that needs quotes, over a configuration without relays. -/
theorem config_round_trip_sample :
    (applyConfig (toYaml { bindHost := [kDoubleQuote, kNewline, kHash, kReturn] })
      { registry := { relayEnabled := false } } []).value.bindHost =
        [kDoubleQuote, kNewline, kHash, kReturn] := by
  have hbounds : ∀ s ∈ schema, s.kind ≠ .text →
      s.lo ≤ s.get { bindHost := [kDoubleQuote, kNewline, kHash, kReturn] } ∧
        s.get { bindHost := [kDoubleQuote, kNewline, kHash, kReturn] } ≤ s.hi := by
    decide
  exact (config_round_trip.1 _ { registry := { relayEnabled := false } } [] hbounds).2.2

end UConnect.Server
