/-
  Server/Yaml.lean --- the YAML subset of the configuration file.

  Source: server/config.cpp, `trim`, `strip_comment`, `parse_scalar`,
  `split_lines`, `parse_block`, `parse_yaml` and `quote`.

  A `YamlNode` is a scalar or a mapping, never both, so a mapping is a type of
  its own here: its entries in document order, each with a value or the entries
  beneath it.  What an entry is annotated with is a parameter; the parser writes
  down the line it is on.

  `parse_block` walks over the lines by index; here it is handed the lines that
  are left and hands back those it leaves.  The fuel is the number of lines, and
  does not run out (`parseLines_iff`).
-/
import UConnect.Crypto.Primitives
import Mathlib.Data.List.DropRight
import Mathlib.Data.Nat.Digits.Defs

set_option autoImplicit false

namespace UConnect.Server

open UConnect.Foundation UConnect.Crypto

/-! ## Characters

What may stand in a key, and what is cut off at the ends. -/

abbrev kTab : UInt8 := 9
abbrev kNewline : UInt8 := 10
abbrev kReturn : UInt8 := 13
abbrev kSpace : UInt8 := 32
abbrev kDoubleQuote : UInt8 := 34
abbrev kHash : UInt8 := 35
abbrev kSingleQuote : UInt8 := 39
abbrev kDash : UInt8 := 45
abbrev kDot : UInt8 := 46
abbrev kColon : UInt8 := 58
abbrev kBackslash : UInt8 := 92

/-- What `trim` takes away. -/
def isBlank (c : UInt8) : Bool := c = kSpace || c = kTab

/-- `key_char`: letters, digits, the underscore and the hyphen. -/
def keyChar (c : UInt8) : Bool :=
  (97 ≤ c && c ≤ 122) || (65 ≤ c && c ≤ 90) || (48 ≤ c && c ≤ 57) || c = 95 || c = kDash

/-- `trim`: spaces and tabs at either end. -/
def trim (s : Bytes) : Bytes := (s.dropWhile isBlank).rdropWhile isBlank

/-- `std::to_string` of a number that is not negative. -/
def toDecimal (n : Nat) : Bytes :=
  if n = 0 then [48] else ((Nat.digits 10 n).map fun d => UInt8.ofNat (48 + d)).reverse

/-! ## Data model

A document is a tree of mappings with texts at its leaves. -/

/-- One non-blank line, reduced to its indentation, key and value, which is
absent when the line opens a nested mapping. -/
structure YamlLine where
  number : Nat
  indent : Nat
  key : Bytes
  value : Option Bytes
  deriving DecidableEq, Repr

structure ParseError where
  line : Nat
  message : Bytes
  deriving DecidableEq, Repr

/-- A mapping: its keys in the order of the document, each with a note, which is
the line it was on.  The line of the root is left out, since nothing reads it. -/
inductive YamlMap (α : Type) where
  | nil
  | scalar (note : α) (key value : Bytes) (rest : YamlMap α)
  | nested (note : α) (key : Bytes) (body rest : YamlMap α)
  deriving DecidableEq, Repr

/-! ## Scalars

A value is quoted in one of two ways or plain, and a comment ends it. -/

/-- The loop of `strip_comment`: what is left of the rest of the line, inside
the quote `q` and after the character `prev`, if there are such. -/
def stripFrom : Option UInt8 → Option UInt8 → Bytes → Bytes
  | _, _, [] => []
  | q, prev, c :: s =>
      if q = some kDoubleQuote ∧ c = kBackslash then
        match s with
        | [] => [c]
        | e :: s => c :: e :: stripFrom q (some e) s
      else
        match q with
        | some d => c :: stripFrom (if c = d then none else q) (some c) s
        | none =>
            if c = kSingleQuote ∨ c = kDoubleQuote then c :: stripFrom (some c) (some c) s
            else if c = kHash ∧ (prev = none ∨ prev = some kSpace) then []
            else c :: stripFrom none (some c) s

/-- `strip_comment`.  A quote opens wherever it stands, also inside a plain
value. -/
def stripComment (s : Bytes) : Bytes := stripFrom none none s

/-- The rest of a value in single quotes. -/
def readSingle : Bytes → Except Bytes Bytes
  | [] => .error (ascii "unterminated quoted value")
  | c :: s =>
      if c ≠ kSingleQuote then (readSingle s).map (c :: ·)
      else
        match s with
        | [] => .ok []
        | d :: s =>
            if d = kSingleQuote then (readSingle s).map (kSingleQuote :: ·)
            else .error (ascii "unexpected text after a quoted value")

/-- The character an escape stands for. -/
def unescape (c : UInt8) : Option UInt8 :=
  if c = kBackslash then some kBackslash
  else if c = kDoubleQuote then some kDoubleQuote
  else if c = 110 then some kNewline
  else if c = 116 then some kTab
  else none

/-- The rest of a value in double quotes.  A backslash at the very end is text,
and the value is then not ended. -/
def readDouble : Bytes → Except Bytes Bytes
  | [] => .error (ascii "unterminated quoted value")
  | c :: s =>
      if c = kBackslash then
        match s with
        | [] => .error (ascii "unterminated quoted value")
        | e :: s =>
            match unescape e with
            | none => .error (ascii "unsupported escape \\" ++ [e])
            | some c => (readDouble s).map (c :: ·)
      else if c = kDoubleQuote then
        if s = [] then .ok [] else .error (ascii "unexpected text after a quoted value")
      else (readDouble s).map (c :: ·)

/-- The end of `parse_scalar`: what YAML would not read as a plain value. -/
def readPlain (c : UInt8) (s : Bytes) : Except Bytes Bytes :=
  if c = 91 ∨ c = 123 then .error (ascii "flow collections are not supported")
  else if c = 38 ∨ c = 42 then .error (ascii "anchors and aliases are not supported")
  else if c = 33 then .error (ascii "tags are not supported")
  else if c = 124 ∨ c = 62 then .error (ascii "block scalars are not supported")
  else .ok (c :: s)

/-- `parse_scalar`, of a value that is not empty. -/
def parseScalar : Bytes → Except Bytes Bytes
  | [] => .ok []
  | c :: s =>
      if c = kSingleQuote then readSingle s
      else if c = kDoubleQuote then readDouble s
      else readPlain c s

/-- One character of `quote`. -/
def quoteChar (c : UInt8) : Bytes :=
  if c = kBackslash then [kBackslash, kBackslash]
  else if c = kDoubleQuote then [kBackslash, kDoubleQuote]
  else if c = kNewline then [kBackslash, 110]
  else if c = kTab then [kBackslash, 116]
  else [c]

/-- `quote`: what can be read back as a scalar whatever it contains. -/
def quote (s : Bytes) : Bytes := kDoubleQuote :: s.flatMap quoteChar ++ [kDoubleQuote]

/-! ## Lines

Blank lines and comments are gone before the blocks are looked at, and a tab in
the indent is an error. -/

/-- The lines of a text, without the newlines. -/
def rawLines : Bytes → List Bytes
  | [] => []
  | c :: s =>
      if c = kNewline then [] :: rawLines s
      else
        match rawLines s with
        | [] => [[c]]
        | l :: ls => (c :: l) :: ls

/-- A carriage return at the end of a line is dropped. -/
def dropReturn (raw : Bytes) : Bytes :=
  if raw.getLast? = some kReturn then raw.dropLast else raw

/-- The end of the loop of `split_lines`: what is left of a line is a key, and a
value perhaps. -/
def readEntry (number indent : Nat) (content : Bytes) : Except ParseError YamlLine :=
  let key := content.takeWhile keyChar
  match content.dropWhile keyChar with
  | [] => .error ⟨number, ascii "expected 'key: value' or 'key:'"⟩
  | c :: s =>
      if key = [] ∨ c ≠ kColon ∨ (s ≠ [] ∧ s.head? ≠ some kSpace) then
        .error ⟨number, ascii "expected 'key: value' or 'key:'"⟩
      else if trim s = [] then .ok ⟨number, indent, key, none⟩
      else
        match parseScalar (trim s) with
        | .error m => .error ⟨number, m⟩
        | .ok v => .ok ⟨number, indent, key, some v⟩

/-- What `split_lines` makes of a line once it is without its comment; `none` if
nothing.  `begun` if there have been keys before. -/
def readContent (number : Nat) (begun : Bool) (indent : Nat) (tab : Bool) (content : Bytes) :
    Except ParseError (Option YamlLine) :=
  if content = [] then .ok none
  else if tab then .error ⟨number, ascii "tabs are not allowed in indentation"⟩
  else if content = ascii "---" ∧ begun = false then .ok none
  else if content = ascii "---" ∨ content = ascii "..." then
    .error ⟨number, ascii "only one document is supported"⟩
  else if content = [kDash] ∨ [kDash, kSpace] <+: content then
    .error ⟨number, ascii "lists are not supported"⟩
  else if content.head? = some 91 ∨ content.head? = some 123 then
    .error ⟨number, ascii "flow collections are not supported"⟩
  else (readEntry number indent content).map some

/-- The body of the loop of `split_lines`. -/
def readLine (number : Nat) (begun : Bool) (raw : Bytes) : Except ParseError (Option YamlLine) :=
  let raw := dropReturn raw
  let text := raw.dropWhile (· = kSpace)
  readContent number begun (raw.takeWhile (· = kSpace)).length (text.head? = some kTab)
    (trim (stripComment text))

/-- `split_lines`, from the line after `number` on. -/
def splitLines : Nat → Bool → List Bytes → Except ParseError (List YamlLine)
  | _, _, [] => .ok []
  | number, begun, raw :: raws =>
      match readLine (number + 1) begun raw with
      | .error e => .error e
      | .ok none => splitLines (number + 1) begun raws
      | .ok (some l) => (splitLines (number + 1) true raws).map (l :: ·)

/-! ## Blocks

A block is the lines of one indent.  What is indented further belongs to the
line above it. -/

/-- `parse_block`: the mapping whose keys sit at `indent`, and the lines after
it.  `seen` are the keys before, each with its line. -/
def parseBlock (indent : Nat) :
    Nat → List (Bytes × Nat) → List YamlLine → Except ParseError (YamlMap Nat × List YamlLine)
  | 0, _, ls => .ok (.nil, ls)
  | _ + 1, _, [] => .ok (.nil, [])
  | fuel + 1, seen, l :: ls =>
      if l.indent ≠ indent then
        if l.indent > indent then .error ⟨l.number, ascii "unexpected indentation"⟩
        else .ok (.nil, l :: ls)
      else
        match seen.lookup l.key with
        | some first =>
            .error ⟨l.number, ascii "duplicate key '" ++ l.key ++ ascii "' (first on line " ++
              toDecimal first ++ ascii ")"⟩
        | none =>
            match l.value with
            | some v =>
                match parseBlock indent fuel (seen ++ [(l.key, l.number)]) ls with
                | .error e => .error e
                | .ok (rest, ls) => .ok (.scalar l.number l.key v rest, ls)
            | none =>
                match ls.head?.filter fun l' => l'.indent > indent with
                | none => .error ⟨l.number, ascii "'" ++ l.key ++ ascii "' has no value"⟩
                | some l' =>
                    match parseBlock l'.indent fuel [] ls with
                    | .error e => .error e
                    | .ok (body, ls) =>
                        match parseBlock indent fuel (seen ++ [(l.key, l.number)]) ls with
                        | .error e => .error e
                        | .ok (rest, ls) => .ok (.nested l.number l.key body rest, ls)

/-- `parse_yaml`, of the lines: the top block starts without an indent and takes
all of them. -/
def parseLines (ls : List YamlLine) : Except ParseError (YamlMap Nat) :=
  match ls with
  | [] => .ok .nil
  | l :: _ =>
      if l.indent ≠ 0 then .error ⟨l.number, ascii "the top level must not be indented"⟩
      else
        match parseBlock 0 ls.length [] ls with
        | .error e => .error e
        | .ok (root, []) => .ok root
        | .ok (_, l :: _) => .error ⟨l.number, ascii "unexpected indentation"⟩

/-- `parse_yaml`.  The first error ends the reading, with the number of its
line. -/
def parseYaml (text : Bytes) : Except ParseError (YamlMap Nat) :=
  match splitLines 0 false (rawLines text) with
  | .error e => .error e
  | .ok ls => parseLines ls

end UConnect.Server
