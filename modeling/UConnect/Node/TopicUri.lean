/-
  Node/TopicUri.lean --- the invite string of a topic.

  Source: `TopicCreds` in include/uconnect/uconnect.hpp and src/api/node.cpp,
  `to_hex` and `from_hex` in src/wire/types.cpp.

  A `std::string_view` is its bytes.  `OpenUri` and `KeyedUri` spell out the
  language the header documents, `uconn://<32 hex topic>[#<64 hex key>]`; the
  parser accepts exactly that, and a string that names a key is never read as an
  open topic.
-/
import UConnect.Crypto.Primitives
import UConnect.Wire.Types

set_option autoImplicit false

namespace UConnect.Node

open UConnect.Foundation UConnect.Crypto

/-! ## Hex digits

Both directions of one digit.  Upper case is read, and only lower case is
written. -/

/-- `kHex`, the digits that are written. -/
def kHex : Bytes := ascii "0123456789abcdef"

/-- The digit of a nibble. -/
def hexDigit (v : UInt8) : UInt8 := kHex.getD v.toNat 0

/-- `to_hex`: two digits for each byte, the more significant first. -/
def toHex (data : Bytes) : Bytes :=
  data.flatMap fun (b : UInt8) => [hexDigit (b >>> 4), hexDigit (b &&& 0x0F)]

/-- `nibble`, with `none` for the negative result. -/
def nibble (c : UInt8) : Option UInt8 :=
  if c ≥ 48 && c ≤ 57 then some (c - 48)         -- '0' to '9'
  else if c ≥ 97 && c ≤ 102 then some (c - 97 + 10)  -- 'a' to 'f'
  else if c ≥ 65 && c ≤ 70 then some (c - 65 + 10)   -- 'A' to 'F'
  else none

/-- The loop of `from_hex`, two digits a byte. -/
def fromHexLoop : Bytes → Option Bytes
  | hi :: lo :: hex => do
      let hi ← nibble hi
      let lo ← nibble lo
      let rest ← fromHexLoop hex
      some ((hi <<< 4 ||| lo) :: rest)
  | _ => some []

/-- `from_hex` into an array of `n` bytes. -/
def fromHex (n : Nat) (hex : Bytes) : Option (Vector UInt8 n) :=
  if hex.length ≠ n * 2 then none
  else (fromHexLoop hex).map (copyInto n)

/-! ## Topic credentials

What an invite names: a topic, and a key if the topic has one. -/

/-- `TopicCreds`.  Whether there is a key is not a flag beside it but the key's
being there. -/
structure TopicCreds where
  id : TopicId
  key : Option SymKey
  deriving DecidableEq

namespace TopicCreds

/-- `is_keyed`, which decides between the two handshakes. -/
def isKeyed (c : TopicCreds) : Bool := c.key.isSome

/-- `kScheme`, compared byte by byte, so that no other case of it is accepted. -/
def kScheme : Bytes := ascii "uconn://"

/-- '#'. -/
def kHash : UInt8 := 35

/-- The last part of `parse`, over the two parts of the URI. -/
def ofParts (idHex keyHex : Bytes) : Option TopicCreds := do
  let id ← fromHex 16 idHex
  if keyHex.isEmpty then some { id := id, key := none }
  else
    let k ← fromHex 32 keyHex
    some { id := id, key := some k }

/-- `TopicCreds::parse`.  A `#` with nothing behind it is refused, and not read
as an open topic; everything from the first one on is the key. -/
def parse (uri : Bytes) : Option TopicCreds :=
  if uri.take kScheme.length ≠ kScheme then none
  else
    let uri := uri.drop kScheme.length
    match uri.idxOf? kHash with
    | none => ofParts uri []
    | some hash =>
        let idHex := uri.take hash
        let keyHex := uri.drop (hash + 1)
        if keyHex.isEmpty then none else ofParts idHex keyHex

/-- `TopicCreds::to_uri`, in lower case whatever was read. -/
def toUri (c : TopicCreds) : Bytes :=
  let s := kScheme ++ toHex c.id.toList
  match c.key with
  | none => s
  | some key => s ++ kHash :: toHex key.toList

end TopicCreds

/-! ## The language of the documentation

What the header says an invite is, stated without the parser. -/

/-- A hex digit of either case. -/
def IsHexDigit (c : UInt8) : Prop :=
  48 ≤ c ∧ c ≤ 57 ∨ 97 ≤ c ∧ c ≤ 102 ∨ 65 ≤ c ∧ c ≤ 70

/-- `n` hex digits. -/
def HexDigits (n : Nat) (s : Bytes) : Prop := s.length = n ∧ ∀ c ∈ s, IsHexDigit c

/-- `uconn://<32 hex topic>`, an open topic. -/
def OpenUri (u : Bytes) : Prop := ∃ id, HexDigits 32 id ∧ u = ascii "uconn://" ++ id

/-- `uconn://<32 hex topic>#<64 hex key>`, a keyed one. -/
def KeyedUri (u : Bytes) : Prop :=
  ∃ id key, HexDigits 32 id ∧ HexDigits 64 key ∧ u = ascii "uconn://" ++ id ++ 35 :: key

/-- A hex digit in lower case, any other byte as it is. -/
def lowerHex (c : UInt8) : UInt8 := if 65 ≤ c ∧ c ≤ 70 then c + 32 else c

/-! ## One byte

The two digits of a byte come back as the byte. -/

/-- What holds of the 256 values holds of every byte. -/
theorem forall_byte {P : UInt8 → Bool} (h : ∀ n < 256, P (UInt8.ofNat n) = true) (b : UInt8) :
    P b = true := by
  have hb := h b.toNat b.toNat_lt
  rwa [UInt8.ofNat_toNat] at hb

/-- A nibble is printed as the digit it was read from, in lower case. -/
theorem hexDigit_nibble {c v : UInt8} (h : nibble c = some v) :
    hexDigit v = lowerHex c ∧ v < 16 := by
  have hall := forall_byte
    (P := fun c => (nibble c).all fun v => decide (hexDigit v = lowerHex c ∧ v < 16))
    (by decide +kernel) c
  rw [h] at hall
  exact of_decide_eq_true hall

theorem nibble_isSome (c : UInt8) : (nibble c).isSome = true ↔ IsHexDigit c := by
  unfold nibble IsHexDigit
  split
  · rename_i h
    simp only [Bool.and_eq_true, decide_eq_true_eq] at h
    simp only [Option.isSome_some, true_iff]
    exact .inl h
  · rename_i h₁
    split
    · rename_i h
      simp only [Bool.and_eq_true, decide_eq_true_eq] at h
      simp only [Option.isSome_some, true_iff]
      exact .inr (.inl h)
    · rename_i h₂
      split
      · rename_i h
        simp only [Bool.and_eq_true, decide_eq_true_eq] at h
        simp only [Option.isSome_some, true_iff]
        exact .inr (.inr h)
      · rename_i h₃
        simp only [Bool.and_eq_true, decide_eq_true_eq] at h₁ h₂ h₃
        simp only [Option.isSome_none, Bool.false_eq_true, false_iff, not_or]
        exact ⟨h₁, h₂, h₃⟩

/-- The two digits of a byte. -/
theorem nibble_hexDigit (b : UInt8) :
    nibble (hexDigit (b >>> 4)) = some (b >>> 4) ∧
      nibble (hexDigit (b &&& 0x0F)) = some (b &&& 0x0F) ∧
      (b >>> 4) <<< 4 ||| (b &&& 0x0F) = b := by
  have hall := forall_byte
    (P := fun b => decide (nibble (hexDigit (b >>> 4)) = some (b >>> 4) ∧
      nibble (hexDigit (b &&& 0x0F)) = some (b &&& 0x0F) ∧
      (b >>> 4) <<< 4 ||| (b &&& 0x0F) = b)) (by decide +kernel) b
  exact of_decide_eq_true hall

/-- The nibbles of a byte put together. -/
theorem nibbles_of_byte {hi lo : UInt8} (hhi : hi < 16) (hlo : lo < 16) :
    (hi <<< 4 ||| lo) >>> 4 = hi ∧ (hi <<< 4 ||| lo) &&& 0x0F = lo := by
  have hall : ∀ h < 16, ∀ l < 16,
      (UInt8.ofNat h <<< 4 ||| UInt8.ofNat l) >>> 4 = UInt8.ofNat h ∧
        (UInt8.ofNat h <<< 4 ||| UInt8.ofNat l) &&& 0x0F = UInt8.ofNat l := by
    decide +kernel
  have h := hall hi.toNat (UInt8.lt_iff_toNat_lt.mp hhi) lo.toNat (UInt8.lt_iff_toNat_lt.mp hlo)
  rwa [UInt8.ofNat_toNat, UInt8.ofNat_toNat] at h

/-! ## Hex strings

And so do the digits of a string, which is where the length and the odd digit
are refused. -/

@[simp] theorem toHex_nil : toHex [] = [] := rfl

@[simp] theorem toHex_cons (b : UInt8) (bs : Bytes) :
    toHex (b :: bs) = hexDigit (b >>> 4) :: hexDigit (b &&& 0x0F) :: toHex bs := rfl

theorem length_toHex (bs : Bytes) : (toHex bs).length = bs.length * 2 := by
  induction bs with
  | nil => rfl
  | cons b bs ih =>
      rw [toHex_cons, List.length_cons, List.length_cons, ih, List.length_cons]
      omega

theorem fromHexLoop_toHex (bs : Bytes) : fromHexLoop (toHex bs) = some bs := by
  induction bs with
  | nil => rfl
  | cons b bs ih =>
      obtain ⟨hhi, hlo, hbyte⟩ := nibble_hexDigit b
      rw [toHex_cons, fromHexLoop, hhi, hlo, ih]
      simp only [Option.bind_eq_bind, Option.bind_some, hbyte]

/-- `from_hex` undoes `to_hex`. -/
theorem fromHex_toHex {n : Nat} (v : Vector UInt8 n) : fromHex n (toHex v.toList) = some v := by
  have hlen : (toHex v.toList).length = n * 2 := by
    rw [length_toHex, Vector.length_toList]
  rw [fromHex, if_neg (not_not_intro hlen), fromHexLoop_toHex, Option.map_some, copyInto_toList]

/-- The loop reads hex digits only, and what it reads prints as the same digits
in lower case. -/
theorem fromHexLoop_some {n : Nat} {hex bs : Bytes} (hlen : hex.length = n * 2)
    (h : fromHexLoop hex = some bs) :
    bs.length = n ∧ (∀ c ∈ hex, IsHexDigit c) ∧ toHex bs = hex.map lowerHex := by
  -- the loop consumes two digits at a time, so the induction is on the number of bytes
  induction n generalizing hex bs with
  | zero =>
      obtain rfl := List.length_eq_zero_iff.mp hlen
      obtain rfl : [] = bs := Option.some.inj h
      exact ⟨rfl, fun c hc => absurd hc List.not_mem_nil, rfl⟩
  | succ n ih =>
      obtain ⟨hi, lo, hex, rfl⟩ : ∃ hi lo rest, hex = hi :: lo :: rest := by
        cases hex with
        | nil => cases hlen
        | cons hi hex =>
            cases hex with
            | nil =>
                rw [List.length_singleton] at hlen
                omega
            | cons lo rest => exact ⟨hi, lo, rest, rfl⟩
      have hrest : hex.length = n * 2 := by
        rw [List.length_cons, List.length_cons] at hlen
        omega
      rw [fromHexLoop] at h
      obtain ⟨vhi, hhi, h⟩ := Option.bind_eq_some_iff.mp h
      obtain ⟨vlo, hlo, h⟩ := Option.bind_eq_some_iff.mp h
      obtain ⟨rest, hloop, h⟩ := Option.bind_eq_some_iff.mp h
      obtain rfl := Option.some.inj h
      obtain ⟨hcount, hdigits, htext⟩ := ih hrest hloop
      obtain ⟨hprintHi, hltHi⟩ := hexDigit_nibble hhi
      obtain ⟨hprintLo, hltLo⟩ := hexDigit_nibble hlo
      obtain ⟨hhigh, hlow⟩ := nibbles_of_byte hltHi hltLo
      refine ⟨by rw [List.length_cons, hcount], ?_, ?_⟩
      · intro c hc
        rcases List.mem_cons.mp hc with rfl | hc
        · exact (nibble_isSome c).mp (by rw [hhi]; rfl)
        rcases List.mem_cons.mp hc with rfl | hc
        · exact (nibble_isSome c).mp (by rw [hlo]; rfl)
        · exact hdigits c hc
      · rw [toHex_cons, hhigh, hlow, hprintHi, hprintLo, htext]
        rfl

theorem fromHexLoop_of_digits {hex : Bytes} (h : ∀ c ∈ hex, IsHexDigit c) :
    ∃ bs, fromHexLoop hex = some bs := by
  fun_induction fromHexLoop hex with
  | case1 hi lo hex ih =>
      obtain ⟨vhi, hhi⟩ := Option.isSome_iff_exists.mp
        ((nibble_isSome hi).mpr (h hi List.mem_cons_self))
      obtain ⟨vlo, hlo⟩ := Option.isSome_iff_exists.mp
        ((nibble_isSome lo).mpr (h lo (List.mem_cons_of_mem _ List.mem_cons_self)))
      obtain ⟨rest, hrest⟩ := ih fun c hc =>
        h c (List.mem_cons_of_mem _ (List.mem_cons_of_mem _ hc))
      rw [hhi, hlo, hrest]
      exact ⟨_, rfl⟩
  | case2 => exact ⟨[], rfl⟩

theorem fromHex_some {n : Nat} {hex : Bytes} {v : Vector UInt8 n} (h : fromHex n hex = some v) :
    HexDigits (n * 2) hex ∧ toHex v.toList = hex.map lowerHex := by
  unfold fromHex at h
  split at h
  · cases h
  rename_i hlen
  have hlen : hex.length = n * 2 := Decidable.not_not.mp hlen
  obtain ⟨bs, hbs, rfl⟩ := Option.map_eq_some_iff.mp h
  obtain ⟨hcount, hdigits, htext⟩ := fromHexLoop_some hlen hbs
  rw [toList_copyInto hcount]
  exact ⟨⟨hlen, hdigits⟩, htext⟩

theorem fromHex_of_digits {n : Nat} {hex : Bytes} (h : HexDigits (n * 2) hex) :
    ∃ v, fromHex n hex = some v := by
  obtain ⟨bs, hbs⟩ := fromHexLoop_of_digits h.2
  rw [fromHex, if_neg (not_not_intro h.1), hbs]
  exact ⟨_, rfl⟩

/-! ## The URI

The parser accepts the language and nothing else, and the two directions undo
each other. -/

theorem kHash_not_hex : ¬ IsHexDigit TopicCreds.kHash := by
  unfold IsHexDigit
  decide

theorem HexDigits.kHash_not_mem {n : Nat} {s : Bytes} (h : HexDigits n s) :
    TopicCreds.kHash ∉ s := fun hmem => kHash_not_hex (h.2 _ hmem)

/-- The first '#' of a string, if it is cut there. -/
theorem idxOf?_hash {id : Bytes} (h : TopicCreds.kHash ∉ id) (key : Bytes) :
    (id ++ TopicCreds.kHash :: key).idxOf? TopicCreds.kHash = some id.length := by
  rw [List.idxOf?_eq_some_iff]
  refine ⟨?_, ?_, ?_⟩
  · rw [List.length_append, List.length_cons]
    omega
  · rw [List.getElem_append_right (Nat.le_refl _)]
    simp
  · intro j hj
    rw [List.getElem_append_left hj]
    exact fun heq => h (heq ▸ List.getElem_mem hj)

/-- A string is cut at its first '#'. -/
theorem split_of_idxOf? {u : Bytes} {i : Nat} (h : u.idxOf? TopicCreds.kHash = some i) :
    u = u.take i ++ TopicCreds.kHash :: u.drop (i + 1) := by
  obtain ⟨hlt, heq, _⟩ := List.idxOf?_eq_some_iff.mp h
  calc u = u.take i ++ u.drop i := (List.take_append_drop i u).symm
    _ = u.take i ++ TopicCreds.kHash :: u.drop (i + 1) := by
      rw [List.drop_eq_getElem_cons hlt, heq]

namespace TopicCreds

theorem parse_open {idHex : Bytes} (h : kHash ∉ idHex) :
    parse (kScheme ++ idHex) = ofParts idHex [] := by
  unfold parse
  rw [if_neg (not_not_intro List.take_left), List.drop_left]
  dsimp only
  rw [List.idxOf?_eq_none_iff.mpr h]

theorem parse_keyed {idHex : Bytes} (h : kHash ∉ idHex) (keyHex : Bytes) :
    parse (kScheme ++ idHex ++ kHash :: keyHex) =
      if keyHex.isEmpty then none else ofParts idHex keyHex := by
  have hdrop : (idHex ++ kHash :: keyHex).drop (idHex.length + 1) = keyHex := by
    rw [← List.drop_drop, List.drop_left]
    rfl
  unfold parse
  rw [List.append_assoc, if_neg (not_not_intro List.take_left), List.drop_left]
  dsimp only
  rw [idxOf?_hash h]
  dsimp only
  rw [List.take_left, hdrop]

/-- Whatever `parse` accepts begins with the scheme. -/
theorem kScheme_of_parse {u : Bytes} {c : TopicCreds} (h : parse u = some c) :
    ∃ rest, u = kScheme ++ rest := by
  unfold parse at h
  split at h
  · cases h
  rename_i hscheme
  have hscheme : u.take kScheme.length = kScheme := Decidable.not_not.mp hscheme
  exact ⟨u.drop kScheme.length, by rw [← congrArg (· ++ u.drop kScheme.length) hscheme,
    List.take_append_drop]⟩

theorem ofParts_open {idHex : Bytes} {c : TopicCreds} :
    ofParts idHex [] = some c ↔ ∃ id, fromHex 16 idHex = some id ∧ c = { id := id, key := none } := by
  unfold ofParts
  rw [Option.bind_eq_bind, Option.bind_eq_some_iff]
  refine exists_congr fun id => and_congr_right fun _ => ?_
  rw [List.isEmpty_nil, if_pos rfl, Option.some_inj, eq_comm]

theorem ofParts_keyed {idHex keyHex : Bytes} (hne : keyHex.isEmpty = false) {c : TopicCreds} :
    ofParts idHex keyHex = some c ↔ ∃ id key, fromHex 16 idHex = some id ∧
      fromHex 32 keyHex = some key ∧ c = { id := id, key := some key } := by
  unfold ofParts
  rw [Option.bind_eq_bind, Option.bind_eq_some_iff]
  refine exists_congr fun id => ?_
  rw [hne, if_neg Bool.false_ne_true, Option.bind_eq_bind, Option.bind_eq_some_iff]
  constructor
  · rintro ⟨hid, key, hkey, hc⟩
    exact ⟨key, hid, hkey, (Option.some.inj hc).symm⟩
  · rintro ⟨key, hid, hkey, rfl⟩
    exact ⟨hid, key, hkey, rfl⟩

/-- Everything `parse` can accept. -/
theorem parse_cases {u : Bytes} {c : TopicCreds} (h : parse u = some c) :
    (∃ idHex id, u = kScheme ++ idHex ∧ fromHex 16 idHex = some id ∧
      c = { id := id, key := none }) ∨
    (∃ idHex keyHex id key, u = kScheme ++ idHex ++ kHash :: keyHex ∧
      fromHex 16 idHex = some id ∧ fromHex 32 keyHex = some key ∧
      c = { id := id, key := some key }) := by
  obtain ⟨rest, rfl⟩ := kScheme_of_parse h
  cases hfind : rest.idxOf? kHash with
  | none =>
      rw [parse_open (List.idxOf?_eq_none_iff.mp hfind)] at h
      obtain ⟨id, hid, hc⟩ := ofParts_open.mp h
      exact .inl ⟨rest, id, rfl, hid, hc⟩
  | some hash =>
      have hsplit := split_of_idxOf? hfind
      have hnot : kHash ∉ rest.take hash := by
        obtain ⟨hlt, _, hbefore⟩ := List.idxOf?_eq_some_iff.mp hfind
        intro hmem
        obtain ⟨j, hj, heq⟩ := List.mem_take_iff_getElem.mp hmem
        exact hbefore j (by omega) heq
      rw [hsplit, ← List.append_assoc, parse_keyed hnot] at h
      split at h
      · cases h
      rename_i hne
      obtain ⟨id, key, hid, hkey, hc⟩ := (ofParts_keyed (Bool.not_eq_true _ ▸ hne)).mp h
      refine .inr ⟨rest.take hash, rest.drop (hash + 1), id, key, ?_, hid, hkey, hc⟩
      rw [List.append_assoc, ← hsplit]

theorem parse_openUri {idHex : Bytes} {id : TopicId} (hid : fromHex 16 idHex = some id) :
    parse (kScheme ++ idHex) = some { id := id, key := none } := by
  rw [parse_open (fromHex_some hid).1.kHash_not_mem]
  exact ofParts_open.mpr ⟨id, hid, rfl⟩

theorem parse_keyedUri {idHex keyHex : Bytes} {id : TopicId} {key : SymKey}
    (hid : fromHex 16 idHex = some id) (hkey : fromHex 32 keyHex = some key) :
    parse (kScheme ++ idHex ++ kHash :: keyHex) = some { id := id, key := some key } := by
  have hne : keyHex.isEmpty = false := by
    cases keyHex with
    | nil => cases (fromHex_some hkey).1.1
    | cons => rfl
  rw [parse_keyed (fromHex_some hid).1.kHash_not_mem, hne, if_neg Bool.false_ne_true]
  exact (ofParts_keyed hne).mpr ⟨id, key, hid, hkey, rfl⟩

theorem parse_isSome (u : Bytes) : (parse u).isSome = true ↔ OpenUri u ∨ KeyedUri u := by
  rw [Option.isSome_iff_exists]
  constructor
  · rintro ⟨c, hc⟩
    obtain ⟨idHex, id, rfl, hid, _⟩ | ⟨idHex, keyHex, id, key, rfl, hid, hkey, _⟩ := parse_cases hc
    · exact .inl ⟨idHex, (fromHex_some hid).1, rfl⟩
    · exact .inr ⟨idHex, keyHex, (fromHex_some hid).1, (fromHex_some hkey).1, rfl⟩
  · rintro (⟨idHex, hidHex, rfl⟩ | ⟨idHex, keyHex, hidHex, hkeyHex, rfl⟩)
    · obtain ⟨id, hid⟩ := fromHex_of_digits (n := 16) hidHex
      exact ⟨_, parse_openUri hid⟩
    · obtain ⟨id, hid⟩ := fromHex_of_digits (n := 16) hidHex
      obtain ⟨key, hkey⟩ := fromHex_of_digits (n := 32) hkeyHex
      exact ⟨_, parse_keyedUri hid hkey⟩

theorem kHash_not_mem_kScheme : kHash ∉ kScheme := by decide

theorem map_lowerHex_kScheme : kScheme.map lowerHex = kScheme := by decide

/-- What an accepted string says about the credentials. -/
theorem parse_reads {u : Bytes} {c : TopicCreds} (h : parse u = some c) :
    (c.isKeyed = true ↔ kHash ∈ u) ∧ c.toUri = u.map lowerHex := by
  obtain ⟨idHex, id, rfl, hid, rfl⟩ | ⟨idHex, keyHex, id, key, rfl, hid, hkey, rfl⟩ :=
    parse_cases h
  · obtain ⟨hdigits, htext⟩ := fromHex_some hid
    refine ⟨?_, ?_⟩
    · have hnot : kHash ∉ kScheme ++ idHex := by
        rw [List.mem_append, not_or]
        exact ⟨kHash_not_mem_kScheme, hdigits.kHash_not_mem⟩
      exact ⟨fun hkeyed => absurd hkeyed Bool.false_ne_true, fun hmem => absurd hmem hnot⟩
    · rw [List.map_append, map_lowerHex_kScheme, ← htext]
      rfl
  · obtain ⟨_, htext⟩ := fromHex_some hid
    obtain ⟨_, hkeyText⟩ := fromHex_some hkey
    refine ⟨?_, ?_⟩
    · have hmem : kHash ∈ kScheme ++ idHex ++ kHash :: keyHex :=
        List.mem_append_right _ List.mem_cons_self
      exact ⟨fun _ => hmem, fun _ => rfl⟩
    · rw [List.map_append, List.map_append, List.map_cons, map_lowerHex_kScheme, ← htext,
        ← hkeyText]
      rfl

theorem parse_toUri (c : TopicCreds) : parse c.toUri = some c := by
  obtain ⟨id, key⟩ := c
  cases key with
  | none => exact parse_openUri (fromHex_toHex id)
  | some key => exact parse_keyedUri (fromHex_toHex id) (fromHex_toHex key)

/-- The parser accepts the documented strings and no others, keeps the key part,
and is the inverse of the printer up to the case of the digits. -/
theorem topic_uri_exact :
    (∀ u, (parse u).isSome = true ↔ OpenUri u ∨ KeyedUri u) ∧
    (∀ u c, parse u = some c → (c.isKeyed = true ↔ kHash ∈ u) ∧ c.toUri = u.map lowerHex) ∧
    ∀ c, parse (toUri c) = some c :=
  ⟨parse_isSome, fun _ _ => parse_reads, parse_toUri⟩

end TopicCreds

end UConnect.Node
