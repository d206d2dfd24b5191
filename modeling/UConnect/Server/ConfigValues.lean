/-
  Server/ConfigValues.lean --- values are read back as they are printed.

  Source: server/config.cpp, `parse_uint`, `parse_with_unit`, `format_bytes`,
  `format_seconds` and the rows of the schema.

  Numbers, sizes and durations with a unit, switches and texts each have a
  printed form and a parser.  The parsers accept more than is printed, so the
  round trip holds in one direction: the printed form of a value in range is
  read as that value.
-/
import UConnect.Server.Config
import UConnect.Server.YamlScan

set_option autoImplicit false

namespace UConnect.Server

open UConnect.Foundation UConnect.Crypto UConnect.Wire

/-! ## Numbers

Decimal digits, written and read; reading refuses a number that is too large at
the digit that makes it so. -/

theorem toNat_digit {d : Nat} (h : d < 10) : (UInt8.ofNat (48 + d)).toNat = 48 + d := by
  rw [UInt8.toNat_ofNat']
  omega

theorem isDigit_digit {d : Nat} (h : d < 10) : isDigit (UInt8.ofNat (48 + d)) = true := by
  have hnat := toNat_digit h
  simp only [isDigit, UInt8.le_iff_toNat_le, hnat, Bool.and_eq_true, decide_eq_true_eq]
  constructor
  · exact Nat.le_add_right 48 d
  · change 48 + d ≤ 57
    omega

/-- A digit more is read as ten times the number and the digit. -/
theorem parseUintFrom_cons {v d : Nat} (hd : d < 10) (hv : v * 10 + d ≤ kMaxUint) (s : Bytes) :
    parseUintFrom v (UInt8.ofNat (48 + d) :: s) = parseUintFrom (v * 10 + d) s := by
  have hsub : (UInt8.ofNat (48 + d)).toNat - 48 = d := by
    rw [toNat_digit hd]
    omega
  have hle : ¬ v > (kMaxUint - d) / 10 := by
    rw [gt_iff_lt, not_lt, Nat.le_div_iff_mul_le (by decide)]
    omega
  rw [parseUintFrom, isDigit_digit hd]
  simp only [Bool.not_true, Bool.false_eq_true, if_false, hsub, if_neg hle]

/-- Digits, the last one first, are read as the number they stand for. -/
theorem parseUintFrom_digits {ds : List Nat} (hds : ∀ d ∈ ds, d < 10) {v : Nat}
    (hv : v * 10 ^ ds.length + Nat.ofDigits 10 ds ≤ kMaxUint) (s : Bytes) :
    parseUintFrom v ((ds.map fun d => UInt8.ofNat (48 + d)).reverse ++ s) =
      parseUintFrom (v * 10 ^ ds.length + Nat.ofDigits 10 ds) s := by
  induction ds generalizing s with
  | nil => simp
  | cons d ds ih =>
      have hd := hds d List.mem_cons_self
      have hmul : v * 10 ^ (d :: ds).length + Nat.ofDigits 10 (d :: ds) =
          (v * 10 ^ ds.length + Nat.ofDigits 10 ds) * 10 + d := by
        rw [Nat.ofDigits_cons, List.length_cons, Nat.pow_succ]
        ring
      rw [hmul] at hv
      rw [List.map_cons, List.reverse_cons, List.append_assoc, List.singleton_append,
        ih (fun d' hd' => hds d' (List.mem_cons_of_mem _ hd')) (by omega),
        parseUintFrom_cons hd hv, hmul]

theorem parseUint_toDecimal {v : Nat} (hv : v ≤ kMaxUint) : parseUint (toDecimal v) = some v := by
  unfold toDecimal
  rcases Decidable.em (v = 0) with rfl | hne
  · rfl
  · rw [if_neg hne]
    have hdigits : Nat.digits 10 v ≠ [] := Nat.digits_ne_nil_iff_ne_zero.mpr hne
    have hread := @parseUintFrom_digits (Nat.digits 10 v)
      (fun d hd => Nat.digits_lt_base (by decide) hd) 0
      (by rwa [Nat.zero_mul, Nat.zero_add, Nat.ofDigits_digits]) []
    rw [List.append_nil, Nat.zero_mul, Nat.zero_add, Nat.ofDigits_digits] at hread
    rw [parseUint, if_neg (by simpa using hdigits), hread]
    rfl

theorem isDigit_toDecimal (v : Nat) : ∀ c ∈ toDecimal v, isDigit c = true := by
  intro c hc
  unfold toDecimal at hc
  split at hc
  · cases List.mem_singleton.mp hc
    rfl
  · obtain ⟨d, hd, rfl⟩ := List.mem_map.mp (List.mem_reverse.mp hc)
    exact isDigit_digit (Nat.digits_lt_base (by decide) hd)

theorem toDecimal_ne_nil (v : Nat) : toDecimal v ≠ [] := by
  unfold toDecimal
  split
  · exact List.cons_ne_nil _ _
  · rename_i hne
    have hdigits : Nat.digits 10 v ≠ [] := Nat.digits_ne_nil_iff_ne_zero.mpr hne
    simpa using hdigits

/-! ## Numbers with a unit

The unit that is printed is one that is read, and dividing by it leaves nothing
over. -/

/-- A unit that a number can be told from. -/
def IsUnit (u : Bytes) : Prop := (∀ c ∈ u.head?, isDigit c = false ∧ c ≠ kSpace) ∧ u ≠ []

theorem isUnit_cons {c : UInt8} {u : Bytes} (hdigit : isDigit c = false) (hspace : c ≠ kSpace) :
    IsUnit (c :: u) := by
  refine ⟨?_, List.cons_ne_nil _ _⟩
  rintro d ⟨⟩
  exact ⟨hdigit, hspace⟩

theorem parseWithUnit_toDecimal {n scale : Nat} {u : Bytes} {units : List (Bytes × Nat)}
    (hu : IsUnit u) (hscale : units.lookup u = some scale) (hpos : 0 < scale)
    (hle : n * scale ≤ kMaxUint) :
    parseWithUnit (toDecimal n ++ u) units = some (n * scale) := by
  obtain ⟨hhead, hne⟩ := hu
  obtain ⟨c, u, rfl⟩ := List.exists_cons_of_ne_nil hne
  obtain ⟨hdigit, hspace⟩ := hhead c rfl
  have hn : n ≤ kMaxUint := Nat.le_trans (Nat.le_mul_of_pos_right n hpos) hle
  have htake : (toDecimal n ++ c :: u).takeWhile isDigit = toDecimal n := by
    rw [List.takeWhile_append_of_pos (isDigit_toDecimal n),
      List.takeWhile_cons_of_neg (by rw [hdigit]; exact Bool.false_ne_true), List.append_nil]
  have hdrop : (toDecimal n ++ c :: u).dropWhile isDigit = c :: u := by
    rw [List.dropWhile_append_of_pos (isDigit_toDecimal n),
      List.dropWhile_cons_of_neg (by rw [hdigit]; exact Bool.false_ne_true)]
  have hfits : ¬ n > kMaxUint / scale := by
    rw [gt_iff_lt, not_lt, Nat.le_div_iff_mul_le hpos]
    exact hle
  unfold parseWithUnit
  rw [htake, hdrop, parseUint_toDecimal hn]
  simp only [List.head?_cons, Option.some.injEq, if_neg hspace, if_neg hne, hscale, if_neg hfits]

theorem parseWithUnit_bare {n : Nat} (units : List (Bytes × Nat)) (hn : n ≤ kMaxUint) :
    parseWithUnit (toDecimal n) units = some n := by
  have hall := isDigit_toDecimal n
  unfold parseWithUnit
  rw [List.takeWhile_eq_self_iff.mpr hall, List.dropWhile_eq_nil_iff.mpr hall,
    parseUint_toDecimal hn]
  rfl

/-- The units of sizes. -/
def sizeUnits : List (Bytes × Nat) :=
  [(ascii "B", 1), (ascii "KiB", kKiB), (ascii "MiB", kKiB * kKiB), (ascii "GiB", kKiB * kKiB * kKiB)]

/-- The units of durations. -/
def timeUnits : List (Bytes × Nat) := [(ascii "s", 1), (ascii "m", 60), (ascii "h", 3600)]

/-- A multiple of a unit, printed in it, is read back. -/
theorem parseWithUnit_multiple {v scale : Nat} {u : Bytes} {units : List (Bytes × Nat)}
    (hu : IsUnit u) (hscale : units.lookup u = some scale) (hpos : 0 < scale)
    (hv : v ≤ kMaxUint) (hmod : v % scale = 0) :
    parseWithUnit (toDecimal (v / scale) ++ u) units = some v := by
  have hmul : v / scale * scale = v := Nat.div_mul_cancel (Nat.dvd_of_mod_eq_zero hmod)
  rw [parseWithUnit_toDecimal hu hscale hpos (by rwa [hmul]), hmul]

theorem parse_formatBytes {v : Nat} (hv : v ≤ kMaxUint) :
    parseWithUnit (formatBytes v) sizeUnits = some v := by
  unfold formatBytes
  split
  · rename_i h
    exact parseWithUnit_multiple (isUnit_cons rfl (by decide)) (by decide) (by decide) hv h.2
  · split
    · rename_i h
      exact parseWithUnit_multiple (isUnit_cons rfl (by decide)) (by decide) (by decide) hv h.2
    · split
      · rename_i h
        exact parseWithUnit_multiple (isUnit_cons rfl (by decide)) (by decide) (by decide) hv h.2
      · exact parseWithUnit_bare _ hv

theorem parse_formatSeconds {v : Nat} (hv : v ≤ kMaxUint) :
    parseWithUnit (formatSeconds v) timeUnits = some v := by
  unfold formatSeconds
  split
  · rename_i h
    exact parseWithUnit_multiple (isUnit_cons rfl (by decide)) (by decide) (by decide) hv h.2
  · split
    · rename_i h
      exact parseWithUnit_multiple (isUnit_cons rfl (by decide)) (by decide) (by decide) hv h.2.1
    · have hmod : v % 1 = 0 := Nat.mod_one v
      have hread := @parseWithUnit_multiple v 1 (ascii "s") timeUnits
        (isUnit_cons rfl (by decide)) (by decide) (by decide) hv hmod
      rwa [Nat.div_one] at hread

theorem hi_le (s : Setting) : s.hi ≤ kMaxUint := by
  cases s <;> decide

/-- What a row prints, it reads back. -/
theorem parseValue_showValue {s : Setting} {v : Nat} (htext : s.kind ≠ .text) (hv : v ≤ s.hi) :
    parseValue s (showValue s v) = some v := by
  have hmax : v ≤ kMaxUint := Nat.le_trans hv (hi_le s)
  unfold parseValue showValue
  cases hk : s.kind with
  | count => exact parseUint_toDecimal hmax
  | bytes => exact parse_formatBytes hmax
  | seconds => exact parse_formatSeconds hmax
  | bool =>
      have hbit : v ≤ 1 := by
        have hs : s = .relayEnabled := by cases s <;> first | rfl | cases hk
        subst hs
        exact hv
      have hcases : v = 0 ∨ v = 1 := by omega
      rcases hcases with rfl | rfl <;> rfl
  | text => exact absurd hk htext

theorem inRange_eq_none {s : Setting} {v : Nat} (hlo : s.lo ≤ v) (hhi : v ≤ s.hi) :
    inRange s v = none := by
  rw [inRange, if_neg (Nat.not_lt.mpr hlo), if_neg (Nat.not_lt.mpr hhi)]

/-- A value in range is set from its print. -/
theorem setField_showValue {s : Setting} {v : Nat} (htext : s.kind ≠ .text) (hlo : s.lo ≤ v)
    (hhi : v ≤ s.hi) (c : RendezvousConfig) : setField s (showValue s v) c = .ok (s.set c v) := by
  rw [setField, if_neg htext, parseValue_showValue htext hhi]
  simp only [inRange_eq_none hlo hhi]

/-! ## What is printed is plain

It contains nothing that a scalar would treat specially. -/

theorem keyChar_of_isDigit {c : UInt8} (h : isDigit c = true) : keyChar c = true := by
  unfold isDigit at h
  unfold keyChar
  rw [h]
  simp

theorem keyChar_append {s u : Bytes} (hs : ∀ c ∈ s, isDigit c = true)
    (hu : ∀ c ∈ u, keyChar c = true) : ∀ c ∈ s ++ u, keyChar c = true := by
  intro c hc
  rcases List.mem_append.mp hc with hc | hc
  · exact keyChar_of_isDigit (hs c hc)
  · exact hu c hc

theorem keyChar_showValue (s : Setting) (v : Nat) : ∀ c ∈ showValue s v, keyChar c = true := by
  have hdecimal : ∀ v, ∀ c ∈ toDecimal v, keyChar c = true := fun v c hc =>
    keyChar_of_isDigit (isDigit_toDecimal v c hc)
  unfold showValue
  split
  · unfold formatBytes
    repeat' split
    · exact keyChar_append (isDigit_toDecimal _) (List.all_eq_true.mp rfl)
    · exact keyChar_append (isDigit_toDecimal _) (List.all_eq_true.mp rfl)
    · exact keyChar_append (isDigit_toDecimal _) (List.all_eq_true.mp rfl)
    · exact hdecimal v
  · unfold formatSeconds
    repeat' split
    · exact keyChar_append (isDigit_toDecimal _) (List.all_eq_true.mp rfl)
    · exact keyChar_append (isDigit_toDecimal _) (List.all_eq_true.mp rfl)
    · exact keyChar_append (isDigit_toDecimal _) (List.all_eq_true.mp rfl)
  · split
    · exact List.all_eq_true.mp rfl
    · exact List.all_eq_true.mp rfl
  · exact hdecimal v

theorem showValue_ne_nil (s : Setting) (v : Nat) : showValue s v ≠ [] := by
  have happend : ∀ v (u : Bytes), toDecimal v ++ u ≠ [] :=
    fun v u => List.append_ne_nil_of_left_ne_nil (toDecimal_ne_nil v) u
  unfold showValue
  split
  · unfold formatBytes
    repeat' split
    · exact happend _ _
    · exact happend _ _
    · exact happend _ _
    · exact toDecimal_ne_nil v
  · unfold formatSeconds
    repeat' split
    all_goals exact happend _ _
  · split <;> decide
  · exact toDecimal_ne_nil v

theorem reads_showValue (s : Setting) (v : Nat) : Reads (showValue s v) (showValue s v) :=
  reads_keyChars (showValue_ne_nil s v) (keyChar_showValue s v)

/-! ## Rows do not touch each other

Setting a row and reading one, for all pairs of rows. -/

section Rows

variable (c : RendezvousConfig) {v : Nat} {s s' : Setting}

theorem secondsOf_seconds (hv : v ≤ kMaxSecs) : Setting.secondsOf (seconds v) = v := by
  have hk : kMaxSecs = 315360000 := by decide
  have hdiv : seconds v / seconds 1 = v := by
    unfold seconds
    rw [Nat.cast_one, one_mul]
    exact Int.mul_ediv_cancel _ (by decide)
  rw [Setting.secondsOf, hdiv]
  omega

theorem get_set_self (htext : s.kind ≠ .text) (hv : v ≤ s.hi) : s.get (s.set c v) = v := by
  have hbool : ∀ {v : Nat}, v ≤ 1 → (decide (v ≠ 0)).toNat = v := by
    intro v hv
    have hcases : v = 0 ∨ v = 1 := by omega
    rcases hcases with rfl | rfl <;> rfl
  cases s with
  | bind => exact absurd rfl htext
  | relayEnabled => exact hbool hv
  | connectionsIdleTimeout => exact secondsOf_seconds hv
  | connectionsFirstFrameTimeout => exact secondsOf_seconds hv
  | registryStaleAfter => exact secondsOf_seconds hv
  | relayExpiry => exact secondsOf_seconds hv
  | relayJoinTimeout => exact secondsOf_seconds hv
  | relayIdleTimeout => exact secondsOf_seconds hv
  | _ => rfl

theorem get_set_ne (hne : s ≠ s') : s.get (s'.set c v) = s.get c := by
  cases s' <;> cases s <;> first | rfl | exact absurd rfl hne

theorem get_bindHost (host : Bytes) : s.get { c with bindHost := host } = s.get c := by
  cases s <;> rfl

theorem bindHost_set : (s.set c v).bindHost = c.bindHost := by
  cases s <;> rfl

end Rows

end UConnect.Server
