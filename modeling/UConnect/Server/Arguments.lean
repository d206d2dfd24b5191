/-
  Server/Arguments.lean --- the server's command line.

  Source: server/config.cpp, `load_config_file` and `parse_server_args`.

  The file system is a function from paths to what is in the files.
  `parse_server_args` goes through the arguments once, for their shape and the
  name of the file, and sets what the flags set after the file has been read.
  So the place of `--config` among the other options does not matter.
-/
import UConnect.Server.ConfigEntries

set_option autoImplicit false

namespace UConnect.Server

open UConnect.Foundation UConnect.Crypto UConnect.Wire

/-! ## The file

A file that cannot be read and one that cannot be applied leave the
configuration alone. -/

/-- `load_config_file`.  The error of the document begins with the word for its
line, which is replaced by the path. -/
def loadConfigFile (files : Bytes → Option Bytes) (path : Bytes) (cfg : RendezvousConfig)
    (error : Bytes) : Returned RendezvousConfig :=
  match files path with
  | none => ⟨false, cfg, path ++ ascii ": cannot open"⟩
  | some text =>
      let r := applyConfig text cfg error
      if r.ok then r else ⟨false, r.value, path ++ [kColon] ++ r.error.drop 5⟩

/-! ## The command line

Arguments are taken twice: for their shape and the file's name, and then for
their values. -/

/-- `ServerOptions`, what the program is started with. -/
structure ServerOptions where
  cfg : RendezvousConfig := {}
  help : Bool := false
  quiet : Bool := false
  natCheck : Bool := false
  printConfig : Bool := false

/-- `valued`: the flags that have a value, and what they set. -/
def valued : List (Bytes × Bytes) :=
  [(ascii "--port", ascii "port"), (ascii "--bind", ascii "bind"),
    (ascii "--threads", ascii "threads"), (ascii "--stale", ascii "registry.stale_after"),
    (ascii "--max-per-ip", ascii "registry.max_per_ip_per_topic")]

/-- `key_for`: the path a flag sets. -/
def keyFor (a : Bytes) : Option Bytes := valued.lookup a

/-- What the loop over the arguments writes to. -/
structure Collected where
  opts : ServerOptions := {}
  configPath : Option Bytes := none
  settings : List (Bytes × Bytes) := []

/-- The loop over the arguments. -/
def collect : List Bytes → Collected → Except Bytes Collected
  | [], st => .ok st
  | a :: args, st =>
      if a = ascii "--help" ∨ a = ascii "-h" then
        collect args { st with opts := { st.opts with help := true } }
      else if a = ascii "--quiet" then
        collect args { st with opts := { st.opts with quiet := true } }
      else if a = ascii "--nat-check" then
        collect args { st with opts := { st.opts with natCheck := true } }
      else if a = ascii "--print-config" then
        collect args { st with opts := { st.opts with printConfig := true } }
      else if a = ascii "--no-relay" then
        collect args { st with settings := st.settings ++ [(a, ascii "false")] }
      else if a = ascii "--config" ∨ (keyFor a).isSome then
        match args with
        | [] => .error (a ++ ascii " needs a value")
        | v :: args =>
            if a ≠ ascii "--config" then
              collect args { st with settings := st.settings ++ [(a, v)] }
            else if st.configPath.isSome then .error (ascii "--config given twice")
            else collect args { st with configPath := some v }
      else .error (ascii "unknown option: " ++ a)

/-- The path of what a flag sets. -/
def flagPath (flag : Bytes) : Bytes :=
  if flag = ascii "--no-relay" then ascii "relay.enabled" else (keyFor flag).getD []

/-- The loop over the settings.  Every flag that sets something has a row, so
the branch without one, which the code does not have, is not taken. -/
def applySettings : List (Bytes × Bytes) → RendezvousConfig → Except Bytes RendezvousConfig
  | [], c => .ok c
  | (flag, value) :: settings, c =>
      match findField (flagPath flag) with
      | none => .error []
      | some s =>
          match setField s value c with
          | .error why => .error (flag ++ ascii ": " ++ why)
          | .ok c => applySettings settings c

/-- The file, if one is named. -/
def loadGiven (files : Bytes → Option Bytes) (path : Option Bytes) (cfg : RendezvousConfig)
    (error : Bytes) : Returned RendezvousConfig :=
  match path with
  | none => ⟨true, cfg, error⟩
  | some path => loadConfigFile files path cfg error

/-- `parse_server_args`.  The file comes before every setting, the check after
all of them, and nothing of it reaches the caller if any part was refused. -/
def parseServerArgs (files : Bytes → Option Bytes) (args : List Bytes) (out : ServerOptions)
    (error : Bytes) : Returned ServerOptions :=
  match collect args {} with
  | .error e => ⟨false, out, e⟩
  | .ok st =>
      let loaded := loadGiven files st.configPath st.opts.cfg error
      if loaded.ok then
        match applySettings st.settings loaded.value with
        | .error e => ⟨false, out, e⟩
        | .ok cfg =>
            match validateConfig cfg with
            | some e => ⟨false, out, e⟩
            | none => ⟨true, { st.opts with cfg := cfg }, loaded.error⟩
      else ⟨false, out, loaded.error⟩

/-! ## Options

The argument list as options, each with its value, which is what the statements
are about. -/

/-- An option of the command line. -/
inductive CliOption where
  | flag (a : Bytes)
  | valued (a v : Bytes)

/-- An argument that is followed by a value. -/
def takesValue (a : Bytes) : Prop := a = ascii "--config" ∨ (keyFor a).isSome = true

namespace CliOption

/-- The arguments of an option. -/
def tokens : CliOption → List Bytes
  | .flag a => [a]
  | .valued a v => [a, v]

/-- What takes a value has one, and what has one takes it. -/
def Complete : CliOption → Prop
  | .flag a => ¬ takesValue a
  | .valued a _ => takesValue a

/-- The file that is named. -/
def path? : CliOption → Option Bytes
  | .valued a v => if a = ascii "--config" then some v else none
  | .flag _ => none

/-- The value that is set, if one is, with the path of its row. -/
def setting? : CliOption → Option (Bytes × Bytes)
  | .flag a => if a = ascii "--no-relay" then some (flagPath a, ascii "false") else none
  | .valued a v => if a = ascii "--config" then none else some (flagPath a, v)

end CliOption

/-- The arguments of some options. -/
def arguments (os : List CliOption) : List Bytes := os.flatMap CliOption.tokens

/-- `--config` and its value. -/
def configOption (path : Bytes) : CliOption := .valued (ascii "--config") path

/-- The values that a file sets, with their paths. -/
def fileEntries (files : Bytes → Option Bytes) : Option Bytes → List (Bytes × Bytes)
  | none => []
  | some path =>
      match files path with
      | none => []
      | some text =>
          match parseYaml text with
          | .error _ => []
          | .ok m => m.entries []

/-! ## One option after another

What one complete option does to what was collected before it. -/

instance takesValue.decidable (a : Bytes) : Decidable (takesValue a) :=
  inferInstanceAs (Decidable (_ ∨ _))

/-- What a flag without a value does: to the options, and what it sets. -/
def flagEffect (a : Bytes) : Option ((ServerOptions → ServerOptions) × List (Bytes × Bytes)) :=
  if a = ascii "--help" ∨ a = ascii "-h" then some (fun opts => { opts with help := true }, [])
  else if a = ascii "--quiet" then some (fun opts => { opts with quiet := true }, [])
  else if a = ascii "--nat-check" then some (fun opts => { opts with natCheck := true }, [])
  else if a = ascii "--print-config" then some (fun opts => { opts with printConfig := true }, [])
  else if a = ascii "--no-relay" then some (id, [(a, ascii "false")])
  else none

/-- What an option does. -/
def takeOption (st : Collected) : CliOption → Except Bytes Collected
  | .flag a =>
      match flagEffect a with
      | none => .error (ascii "unknown option: " ++ a)
      | some (f, settings) =>
          .ok { st with opts := f st.opts, settings := st.settings ++ settings }
  | .valued a v =>
      if a ≠ ascii "--config" then .ok { st with settings := st.settings ++ [(a, v)] }
      else if st.configPath.isSome then .error (ascii "--config given twice")
      else .ok { st with configPath := some v }

section Options

variable {a v : Bytes} {o : CliOption} {os : List CliOption} {st st' : Collected}

theorem collect_flag (h : ¬ takesValue a) (args : List Bytes) (st : Collected) :
    collect (a :: args) st = (takeOption st (.flag a)).bind (collect args) := by
  rw [collect.eq_def, takeOption, flagEffect]
  simp only
  rcases Decidable.em (a = ascii "--help" ∨ a = ascii "-h") with h₁ | h₁
  · rw [if_pos h₁, if_pos h₁]
    simp only [List.append_nil]
    rfl
  · rw [if_neg h₁, if_neg h₁]
    rcases Decidable.em (a = ascii "--quiet") with h₂ | h₂
    · rw [if_pos h₂, if_pos h₂]
      simp only [List.append_nil]
      rfl
    · rw [if_neg h₂, if_neg h₂]
      rcases Decidable.em (a = ascii "--nat-check") with h₃ | h₃
      · rw [if_pos h₃, if_pos h₃]
        simp only [List.append_nil]
        rfl
      · rw [if_neg h₃, if_neg h₃]
        rcases Decidable.em (a = ascii "--print-config") with h₄ | h₄
        · rw [if_pos h₄, if_pos h₄]
          simp only [List.append_nil]
          rfl
        · rw [if_neg h₄, if_neg h₄]
          rcases Decidable.em (a = ascii "--no-relay") with h₅ | h₅
          · rw [if_pos h₅, if_pos h₅]
            rfl
          · rw [if_neg h₅, if_neg h₅]
            have hnot : ¬ (a = ascii "--config" ∨ (keyFor a).isSome = true) := h
            rw [if_neg hnot]
            rfl

theorem collect_valued (h : takesValue a) (args : List Bytes) (st : Collected) :
    collect (a :: v :: args) st = (takeOption st (.valued a v)).bind (collect args) := by
  -- what takes a value is none of the flags that do not
  have hne : ∀ {flag : Bytes}, ¬ takesValue flag → a ≠ flag := by
    rintro flag hflag rfl
    exact hflag h
  have htakes : a = ascii "--config" ∨ (keyFor a).isSome = true := h
  rw [collect, if_neg (not_or.mpr ⟨hne (by decide), hne (by decide)⟩), if_neg (hne (by decide)),
    if_neg (hne (by decide)), if_neg (hne (by decide)), if_neg (hne (by decide)), if_pos htakes,
    takeOption]
  rcases Decidable.em (a = ascii "--config") with hconfig | hconfig
  · rw [if_neg (not_not.mpr hconfig), if_neg (not_not.mpr hconfig)]
    split <;> rfl
  · rw [if_pos hconfig, if_pos hconfig]
    rfl

/-- The options are taken one after another. -/
theorem collect_cons (h : o.Complete) (os : List CliOption) (st : Collected) :
    collect (arguments (o :: os)) st = (takeOption st o).bind (collect (arguments os)) := by
  cases o with
  | flag a => exact collect_flag h _ st
  | valued a v => exact collect_valued h _ st

/-- What a flag sets, with the path of its row. -/
def flagEntry (e : Bytes × Bytes) : Bytes × Bytes := (flagPath e.1, e.2)

/-- A flag leaves the configuration for later, and is remembered for what it
sets. -/
theorem flagEffect_some {f : ServerOptions → ServerOptions} {settings : List (Bytes × Bytes)}
    (h : flagEffect a = some (f, settings)) :
    (∀ opts, (f opts).cfg = opts.cfg) ∧
      settings.map flagEntry = (CliOption.flag a).setting?.toList := by
  have hother : ∀ {flag : Bytes}, flag ≠ ascii "--no-relay" →
      (CliOption.flag flag).setting?.toList = [] := by
    intro flag hne
    rw [CliOption.setting?, if_neg hne]
    rfl
  unfold flagEffect at h
  split at h
  · rename_i hhelp
    cases h
    refine ⟨fun opts => rfl, (hother ?_).symm⟩
    rcases hhelp with rfl | rfl
    · decide
    · decide
  · split at h
    · rename_i hquiet
      cases h
      exact ⟨fun opts => rfl, (hother (by rw [hquiet]; decide)).symm⟩
    · split at h
      · rename_i hcheck
        cases h
        exact ⟨fun opts => rfl, (hother (by rw [hcheck]; decide)).symm⟩
      · split at h
        · rename_i hprint
          cases h
          exact ⟨fun opts => rfl, (hother (by rw [hprint]; decide)).symm⟩
        · split at h
          · rename_i hrelay
            cases h
            refine ⟨fun opts => rfl, ?_⟩
            rw [CliOption.setting?, if_pos hrelay]
            rfl
          · cases h

/-- What is known of the arguments after an option. -/
theorem takeOption_ok (h : takeOption st o = .ok st') :
    st'.configPath = st.configPath.or o.path? ∧ st'.opts.cfg = st.opts.cfg ∧
      st'.settings.map flagEntry = st.settings.map flagEntry ++ o.setting?.toList := by
  cases o with
  | flag a =>
      rw [takeOption] at h
      split at h
      · cases h
      · rename_i f settings heffect
        cases h
        obtain ⟨hcfg, hsettings⟩ := flagEffect_some heffect
        refine ⟨Option.or_none.symm, hcfg _, ?_⟩
        rw [List.map_append, hsettings]
  | valued a v =>
      rw [takeOption] at h
      rcases Decidable.em (a = ascii "--config") with hconfig | hconfig
      · rw [if_neg (not_not.mpr hconfig)] at h
        split at h
        · cases h
        · rename_i hnone
          cases h
          have hpath : st.configPath = none := by simpa using hnone
          rw [CliOption.path?, CliOption.setting?, if_pos hconfig, if_pos hconfig, hpath]
          exact ⟨rfl, rfl, (List.append_nil _).symm⟩
      · rw [if_pos hconfig] at h
        cases h
        rw [CliOption.path?, CliOption.setting?, if_neg hconfig, if_neg hconfig, List.map_append]
        exact ⟨Option.or_none.symm, rfl, rfl⟩

/-- What is known of the arguments in the end. -/
theorem collect_ok (hos : ∀ o ∈ os, o.Complete) (h : collect (arguments os) st = .ok st') :
    st'.configPath = st.configPath.or (os.findSome? CliOption.path?) ∧
      st'.opts.cfg = st.opts.cfg ∧
      st'.settings.map flagEntry =
        st.settings.map flagEntry ++ os.filterMap CliOption.setting? := by
  induction os generalizing st with
  | nil =>
      cases h
      exact ⟨Option.or_none.symm, rfl, (List.append_nil _).symm⟩
  | cons o os ih =>
      rw [collect_cons (hos o List.mem_cons_self)] at h
      cases htake : takeOption st o with
      | error e =>
          rw [htake] at h
          cases h
      | ok st₁ =>
          rw [htake] at h
          obtain ⟨hpath₁, hcfg₁, hsettings₁⟩ := takeOption_ok htake
          obtain ⟨hpath, hcfg, hsettings⟩ := ih (fun o' ho' => hos o' (List.mem_cons_of_mem _ ho')) h
          refine ⟨?_, hcfg.trans hcfg₁, ?_⟩
          · rw [hpath, hpath₁, Option.or_assoc, List.findSome?_cons]
            cases o.path? <;> rfl
          · rw [hsettings, hsettings₁, List.append_assoc, List.filterMap_cons]
            cases o.setting? <;> rfl

/-! ## The place of the file

Moving `--config` among the options changes nothing. -/

/-- With the file that is named. -/
def Collected.naming (path : Bytes) (st : Collected) : Collected :=
  { st with configPath := some path }

/-- An option other than `--config` has nothing to do with the file. -/
theorem takeOption_naming (ho : o.path? = none) (path : Bytes) (st : Collected) :
    takeOption (st.naming path) o = (takeOption st o).map (Collected.naming path) := by
  cases o with
  | flag a =>
      rw [takeOption, takeOption]
      split <;> rfl
  | valued a v =>
      have hne : a ≠ ascii "--config" := by
        rintro rfl
        cases ho
      rw [takeOption, takeOption, if_pos hne, if_pos hne]
      rfl

theorem collect_naming (h : ∀ o ∈ os, o.Complete ∧ o.path? = none) (path : Bytes)
    (st : Collected) :
    collect (arguments os) (st.naming path) =
      (collect (arguments os) st).map (Collected.naming path) := by
  induction os generalizing st with
  | nil => rfl
  | cons o os ih =>
      obtain ⟨hcomplete, hpath⟩ := h o List.mem_cons_self
      rw [collect_cons hcomplete, collect_cons hcomplete, takeOption_naming hpath]
      cases takeOption st o with
      | error e => rfl
      | ok st₁ => exact ih (fun o' ho' => h o' (List.mem_cons_of_mem _ ho')) st₁

/-- `--config` is taken as if it came last. -/
theorem collect_config {xs ys : List CliOption} (h : ∀ o ∈ xs ++ ys, o.Complete ∧ o.path? = none)
    (path : Bytes) (st : Collected) (hst : st.configPath = none) :
    collect (arguments (xs ++ configOption path :: ys)) st =
      (collect (arguments (xs ++ ys)) st).map (Collected.naming path) := by
  induction xs generalizing st with
  | nil =>
      have hcomplete : (configOption path).Complete := Or.inl rfl
      have htake : takeOption st (configOption path) = .ok (st.naming path) := by
        rw [configOption, takeOption, if_neg (not_not.mpr rfl), hst]
        rfl
      rw [List.nil_append, List.nil_append, collect_cons hcomplete, htake]
      exact collect_naming h path st
  | cons o xs ih =>
      obtain ⟨hcomplete, hpath⟩ := h o List.mem_cons_self
      rw [List.cons_append, List.cons_append, collect_cons hcomplete, collect_cons hcomplete]
      cases htake : takeOption st o with
      | error e => rfl
      | ok st₁ =>
          apply ih (fun o' ho' => h o' (List.mem_cons_of_mem _ ho'))
          rw [(takeOption_ok htake).1, hst, hpath]
          rfl

end Options

/-! ## What is set

The settings in the order of the arguments, over what the file has left. -/

section Settings

variable {files : Bytes → Option Bytes} {c c' : RendezvousConfig}

theorem applySettings_ok {settings : List (Bytes × Bytes)} (h : applySettings settings c = .ok c') :
    setAll (settings.map flagEntry) c = some c' := by
  induction settings generalizing c with
  | nil =>
      cases h
      rfl
  | cons e settings ih =>
      obtain ⟨flag, value⟩ := e
      rw [applySettings] at h
      rw [List.map_cons, flagEntry, setAll]
      cases hfind : findField (flagPath flag) with
      | none =>
          rw [hfind] at h
          cases h
      | some s =>
          simp only [hfind] at h ⊢
          cases hset : setField s value c with
          | error why =>
              rw [hset] at h
              cases h
          | ok c₁ =>
              simp only [hset] at h ⊢
              exact ih h

/-- The file sets what is in it. -/
theorem loadGiven_ok {path : Option Bytes} {error : Bytes}
    (h : (loadGiven files path c error).ok = true) :
    setAll (fileEntries files path) c = some (loadGiven files path c error).value := by
  cases path with
  | none => rfl
  | some path =>
      unfold loadGiven loadConfigFile at h ⊢
      unfold fileEntries
      cases hfile : files path with
      | none =>
          simp only [hfile] at h
          cases h
      | some text =>
          simp only [hfile] at h ⊢
          split at h
          · rename_i hok
            rw [if_pos hok]
            obtain ⟨m, hparse, -, hset⟩ := (applyConfig_ok_iff text c error _).mp ⟨hok, rfl⟩
            rw [hparse]
            exact hset
          · cases h

theorem validateConfig_none (h : validateConfig c = none) (s : Setting) : Within s c := by
  intro htext
  have hnone := List.findSome?_eq_none_iff.mp h s (mem_schema s)
  rw [if_neg htext] at hnone
  exact inRange_none_iff.mp hnone

end Settings

/-- What a successful `parse_server_args` has done. -/
theorem parseServerArgs_ok {files : Bytes → Option Bytes} {args : List Bytes} {out : ServerOptions}
    {error : Bytes} (h : (parseServerArgs files args out error).ok = true) :
    ∃ st loaded, collect args {} = .ok st ∧
      setAll (fileEntries files st.configPath) st.opts.cfg = some loaded ∧
      setAll (st.settings.map flagEntry) loaded =
        some (parseServerArgs files args out error).value.cfg ∧
      validateConfig (parseServerArgs files args out error).value.cfg = none := by
  unfold parseServerArgs at h ⊢
  cases hcollect : collect args {} with
  | error e =>
      simp only [hcollect] at h
      cases h
  | ok st =>
      simp only [hcollect] at h ⊢
      split at h
      · rename_i hok
        rw [if_pos hok]
        cases hset : applySettings st.settings
            (loadGiven files st.configPath st.opts.cfg error).value with
        | error e =>
            rw [hset] at h
            cases h
        | ok cfg =>
            simp only [hset] at h ⊢
            cases hvalid : validateConfig cfg with
            | some e =>
                rw [hvalid] at h
                cases h
            | none => exact ⟨st, _, rfl, loadGiven_ok hok, applySettings_ok hset, hvalid⟩
      · cases h

/-- A failed one has done nothing to the caller's options. -/
theorem parseServerArgs_failed {files : Bytes → Option Bytes} {args : List Bytes}
    {out : ServerOptions} {error : Bytes} (h : (parseServerArgs files args out error).ok = false) :
    (parseServerArgs files args out error).value = out := by
  unfold parseServerArgs at h ⊢
  cases hcollect : collect args {} with
  | error e => rfl
  | ok st =>
      simp only [hcollect] at h ⊢
      split
      · rename_i hok
        rw [if_pos hok] at h
        cases hset : applySettings st.settings
            (loadGiven files st.configPath st.opts.cfg error).value with
        | error e => rfl
        | ok cfg =>
            simp only [hset] at h ⊢
            cases hvalid : validateConfig cfg with
            | some e => rfl
            | none =>
                rw [hvalid] at h
                cases h
      · rfl

/-! ## Precedence

A flag beats the file, and the file the defaults. -/

/-- `--config` and its value may stand anywhere among the other options.  On
success every row is within its bounds, and has the value of the last flag that
sets it, or else of the file, or else its default; on failure the caller's
options are as they were. -/
theorem server_arguments (files : Bytes → Option Bytes) :
    (∀ (xs ys xs' ys' : List CliOption) (path : Bytes) (out : ServerOptions) (error : Bytes),
      (∀ o ∈ xs ++ ys, o.Complete ∧ o.path? = none) → xs' ++ ys' = xs ++ ys →
        parseServerArgs files (arguments (xs' ++ configOption path :: ys')) out error =
          parseServerArgs files (arguments (xs ++ configOption path :: ys)) out error) ∧
    (∀ (os : List CliOption) (out : ServerOptions) (error : Bytes), (∀ o ∈ os, o.Complete) →
      (parseServerArgs files (arguments os) out error).ok = true → ∀ s ∈ schema,
        Within s (parseServerArgs files (arguments os) out error).value.cfg ∧
        match lastOf (os.filterMap CliOption.setting?) s.path,
          lastOf (fileEntries files (os.findSome? CliOption.path?)) s.path with
        | some text, _ => Holds s text (parseServerArgs files (arguments os) out error).value.cfg
        | none, some text =>
            Holds s text (parseServerArgs files (arguments os) out error).value.cfg
        | none, none => Same s {} (parseServerArgs files (arguments os) out error).value.cfg) ∧
    (∀ (args : List Bytes) (out : ServerOptions) (error : Bytes),
      (parseServerArgs files args out error).ok = false →
        (parseServerArgs files args out error).value = out) := by
  refine ⟨?_, ?_, fun args out error h => parseServerArgs_failed h⟩
  · intro xs ys xs' ys' path out error hos heq
    have hos' : ∀ o ∈ xs' ++ ys', o.Complete ∧ o.path? = none := by rwa [heq]
    unfold parseServerArgs
    rw [collect_config hos path {} rfl, collect_config hos' path {} rfl, heq]
  · intro os out error hos hok s _
    obtain ⟨st, loaded, hcollect, hfile, hflags, hvalid⟩ := parseServerArgs_ok hok
    obtain ⟨hpath, hcfg, hsettings⟩ := collect_ok hos hcollect
    rw [hpath, hcfg] at hfile
    rw [hsettings] at hflags
    have hall : setAll (fileEntries files (os.findSome? CliOption.path?) ++
        os.filterMap CliOption.setting?) {} =
          some (parseServerArgs files (arguments os) out error).value.cfg := by
      have hfile' : setAll (fileEntries files (os.findSome? CliOption.path?)) {} = some loaded := hfile
      rw [setAll_append, hfile']
      exact hflags
    have hlast := setAll_last hall s
    rw [lastOf_append] at hlast
    refine ⟨validateConfig_none hvalid s, ?_⟩
    cases hflag : lastOf (os.filterMap CliOption.setting?) s.path with
    | some text =>
        rw [hflag] at hlast
        exact hlast.1
    | none =>
        rw [hflag, Option.none_or] at hlast
        cases hfileValue : lastOf (fileEntries files (os.findSome? CliOption.path?)) s.path with
        | some text =>
            rw [hfileValue] at hlast
            exact hlast.1
        | none =>
            rw [hfileValue] at hlast
            exact hlast

/-- One file. -/
def sampleFiles (path : Bytes) : Option Bytes :=
  if path = ascii "f" then some (ascii "port: 7" ++ [kNewline] ++ ascii "threads: 3") else none

/-- A flag before the file that sets what the file sets too. -/
def sampleOptions : List CliOption :=
  [.valued (ascii "--port") (ascii "5"), configOption (ascii "f"), .flag (ascii "--quiet")]

theorem sampleOptions_complete : ∀ o ∈ sampleOptions, o.Complete := by
  intro o ho
  simp only [sampleOptions, List.mem_cons, List.not_mem_nil, or_false] at ho
  rcases ho with rfl | rfl | rfl
  · exact Or.inr (by decide)
  · exact Or.inl rfl
  · exact (by decide : ¬ takesValue (ascii "--quiet"))

theorem sampleOptions_ok :
    (parseServerArgs sampleFiles (arguments sampleOptions) {} []).ok = true := by
  decide +kernel

theorem server_arguments_sample :
    (parseServerArgs sampleFiles (arguments sampleOptions) {} []).value.cfg.port = 5 ∧
      (parseServerArgs sampleFiles (arguments sampleOptions) {} []).value.cfg.threads = 3 := by
  have hrows := (server_arguments sampleFiles).2.1 sampleOptions {} [] sampleOptions_complete
    sampleOptions_ok
  have hport := hrows .port (mem_schema _)
  have hthreads := hrows .threads (mem_schema _)
  have hflag : lastOf (sampleOptions.filterMap CliOption.setting?) Setting.port.path =
      some (ascii "5") := by
    decide +kernel
  have hnone : lastOf (sampleOptions.filterMap CliOption.setting?) Setting.threads.path = none := by
    decide +kernel
  have hfile : lastOf (fileEntries sampleFiles (sampleOptions.findSome? CliOption.path?))
      Setting.threads.path = some (ascii "3") := by
    decide +kernel
  rw [hflag] at hport
  rw [hnone, hfile] at hthreads
  generalize (parseServerArgs sampleFiles (arguments sampleOptions) {} []).value.cfg = c at *
  have hfive : parseValue .port (ascii "5") = some c.port := hport.2
  have hthree : parseValue .threads (ascii "3") = some c.threads := hthreads.2
  rw [show parseValue .port (ascii "5") = some 5 by decide +kernel] at hfive
  rw [show parseValue .threads (ascii "3") = some 3 by decide +kernel] at hthree
  exact ⟨(Option.some.inj hfive).symm, (Option.some.inj hthree).symm⟩

end UConnect.Server
