/-
  Session/ReplaySet.lean --- the replay window in machine words, as a set of
  counters.

  Source: `ReplayWindow::accept` in src/session/session.cpp.

  `WordWindow` keeps the fields as the source has them, three words with machine
  subtraction and machine shifts.  It refines the window of
  `Session/ReplayWindow` (no subtraction wraps and no shift reaches the width of
  the word), and over whole runs both are the set of accepted counters, cut off
  64 below the highest.
-/
import UConnect.Foundation.Run
import UConnect.Session.ReplayWindow

set_option autoImplicit false

namespace UConnect

open Foundation

/-- `ReplayWindow`, in 64-bit words. -/
structure WordWindow where
  highest : UInt64 := 0
  bitmap : UInt64 := 0
  seen : Bool := false
  deriving DecidableEq

namespace WordWindow

/-- `kWidth`, a `size_t`. -/
def kWidth : UInt64 := 64

/-- `accept`: whether `counter` is new, and the window after it. -/
def accept (w : WordWindow) (counter : UInt64) : Bool × WordWindow :=
  if !w.seen then (true, { seen := true, highest := counter, bitmap := 1 })
  else if counter > w.highest then
    let shift := counter - w.highest
    let bitmap := if shift ≥ kWidth then 0 else w.bitmap <<< shift
    (true, { w with bitmap := bitmap ||| 1, highest := counter })
  else
    let behind := w.highest - counter
    if behind ≥ kWidth then (false, w)
    else
      let mask : UInt64 := 1 <<< behind
      if w.bitmap &&& mask ≠ 0 then (false, w)
      else (true, { w with bitmap := w.bitmap ||| mask })

/-! ## The words and the window they stand for

The three words as the fields of the window of bit vectors, and one call in
both. -/

/-- The same window with the mark as a number. -/
def toWindow (w : WordWindow) : ReplayWindow where
  highest := w.highest.toNat
  bitmap := w.bitmap.toBitVec
  seen := w.seen

theorem toNat_lt_kWidth {s : UInt64} : s < kWidth ↔ s.toNat < ReplayWindow.kWidth :=
  UInt64.lt_iff_toNat_lt

/-- A machine shift below the width is a shift. -/
theorem toBitVec_shiftLeft_of_lt (x : UInt64) {s : UInt64} (hs : s.toNat < 64) :
    (x <<< s).toBitVec = x.toBitVec <<< s.toNat := by
  rw [UInt64.toBitVec_shiftLeft, BitVec.shiftLeft_eq']
  have hmod : (s.toBitVec % 64).toNat = s.toNat := by
    rw [BitVec.toNat_umod]
    exact Nat.mod_eq_of_lt hs
  rw [hmod]

theorem toBitVec_ne_zero (x : UInt64) : x ≠ 0 ↔ x.toBitVec ≠ 0 := by
  rw [ne_eq, ne_eq, ← UInt64.toBitVec_inj]
  rfl

section Refines

variable {w : WordWindow} {c : UInt64}

/-- A counter above the mark: the distance to it does not wrap. -/
theorem accept_toWindow_of_gt (hseen : w.seen = true) (hgt : c > w.highest) :
    w.toWindow.accept c.toNat = ((w.accept c).1, (w.accept c).2.toWindow) := by
  have hwseen : w.toWindow.seen = true := hseen
  have hgt' : c.toNat > w.toWindow.highest := UInt64.lt_iff_toNat_lt.mp hgt
  have hsub : (c - w.highest).toNat = c.toNat - w.toWindow.highest :=
    UInt64.toNat_sub_of_le _ _ (UInt64.le_of_lt hgt)
  unfold accept ReplayWindow.accept
  rw [hseen, hwseen, Bool.not_true, if_neg Bool.false_ne_true, if_neg Bool.false_ne_true,
    if_pos hgt, if_pos hgt']
  by_cases hfar : c - w.highest ≥ kWidth
  · have hfar' : c.toNat - w.toWindow.highest ≥ ReplayWindow.kWidth := by
      rw [← hsub]
      exact UInt64.le_iff_toNat_le.mp hfar
    simp only [if_pos hfar, if_pos hfar']
    rfl
  · have hnear := toNat_lt_kWidth.mp (UInt64.not_le.mp hfar)
    have hnear' : ¬ c.toNat - w.toWindow.highest ≥ ReplayWindow.kWidth := by
      rw [← hsub]
      exact Nat.not_le.mpr hnear
    have hshift := toBitVec_shiftLeft_of_lt w.bitmap hnear
    rw [hsub] at hshift
    simp only [if_neg hfar, if_neg hnear']
    simp only [toWindow, UInt64.toBitVec_or, hshift]
    rfl

/-- A counter at or below the mark: the mask is a shift by less than the width. -/
theorem accept_toWindow_of_le (hseen : w.seen = true) (hle : c ≤ w.highest) :
    w.toWindow.accept c.toNat = ((w.accept c).1, (w.accept c).2.toWindow) := by
  have hwseen : w.toWindow.seen = true := hseen
  have hle' : ¬ c.toNat > w.toWindow.highest := Nat.not_lt.mpr (UInt64.le_iff_toNat_le.mp hle)
  have hsub : (w.highest - c).toNat = w.toWindow.highest - c.toNat :=
    UInt64.toNat_sub_of_le _ _ hle
  unfold accept ReplayWindow.accept
  rw [hseen, hwseen, Bool.not_true, if_neg Bool.false_ne_true, if_neg Bool.false_ne_true,
    if_neg (UInt64.not_lt.mpr hle), if_neg hle']
  by_cases hold : w.highest - c ≥ kWidth
  · have hold' : w.toWindow.highest - c.toNat ≥ ReplayWindow.kWidth := by
      rw [← hsub]
      exact UInt64.le_iff_toNat_le.mp hold
    simp only [if_pos hold, if_pos hold']
  · have hnear := toNat_lt_kWidth.mp (UInt64.not_le.mp hold)
    have hold' : ¬ w.toWindow.highest - c.toNat ≥ ReplayWindow.kWidth := by
      rw [← hsub]
      exact Nat.not_le.mpr hnear
    have hmask : ((1 : UInt64) <<< (w.highest - c)).toBitVec =
        1#64 <<< (w.toWindow.highest - c.toNat) := by
      rw [toBitVec_shiftLeft_of_lt 1 hnear, hsub]
      rfl
    have htest : w.bitmap &&& (1 <<< (w.highest - c)) ≠ 0 ↔
        w.toWindow.bitmap &&& (1#64 <<< (w.toWindow.highest - c.toNat)) ≠ 0 := by
      rw [toBitVec_ne_zero, UInt64.toBitVec_and, hmask]
      rfl
    simp only [if_neg hold, if_neg hold']
    by_cases hbit : w.bitmap &&& (1 <<< (w.highest - c)) ≠ 0
    · rw [if_pos hbit, if_pos (htest.mp hbit)]
    · rw [if_neg hbit, if_neg (fun h => hbit (htest.mpr h))]
      simp only [toWindow, UInt64.toBitVec_or, hmask]

end Refines

/-- `accept` on the words is `accept` on the window. -/
theorem accept_toWindow (w : WordWindow) (c : UInt64) :
    w.toWindow.accept c.toNat = ((w.accept c).1, (w.accept c).2.toWindow) := by
  cases hseen : w.seen with
  | false =>
      have hwseen : w.toWindow.seen = false := hseen
      unfold accept ReplayWindow.accept
      rw [hseen, hwseen]
      rfl
  | true =>
      by_cases hgt : c > w.highest
      · exact accept_toWindow_of_gt hseen hgt
      · exact accept_toWindow_of_le hseen (UInt64.not_lt.mp hgt)

/-! ## Runs

The counters offered so far and those accepted, and what a window says of any
counter then. -/

/-- A run of `accept`: the window and the counters accepted so far, newest
first. -/
structure Offers where
  window : WordWindow := {}
  accepted : List UInt64 := []

/-- One counter offered to the window. -/
def offer (s : Offers) (c : UInt64) : Offers :=
  { window := (s.window.accept c).2
    accepted := if (s.window.accept c).1 then c :: s.accepted else s.accepted }

/-- The counters `cs` offered in order to a new window. -/
def offers (cs : List UInt64) : Offers := run offer {} cs

/-- The window stands for the counters accepted so far. -/
structure Agrees (s : Offers) : Prop where
  tracks : s.window.toWindow.Tracks (s.accepted.map UInt64.toNat)
  /-- Nothing is written before the first counter. -/
  unused : s.window.seen = false → s.window = {}

theorem agrees_init : Agrees {} where
  tracks := ReplayWindow.tracks_init
  unused _ := rfl

/-- After a counter the window has seen one. -/
theorem accept_seen (w : WordWindow) (c : UInt64) : (w.accept c).2.seen = true := by
  have hseen : (w.toWindow.accept c.toNat).2.seen = true := by
    obtain ⟨_, he⟩ | ⟨hs, _, he⟩ | ⟨hs, _, _, he⟩ | ⟨hs, _, _, _, he⟩ | ⟨hs, _, _, _, he⟩ :=
      ReplayWindow.accept_cases w.toWindow c.toNat
    · rw [he]
    all_goals
      rw [he]
      exact hs
  rw [accept_toWindow] at hseen
  exact hseen

theorem agrees_offer {s : Offers} (h : Agrees s) (c : UInt64) : Agrees (offer s c) := by
  refine ⟨?_, ?_⟩
  · have hstep := h.tracks.accept c.toNat
    rw [accept_toWindow] at hstep
    unfold offer
    cases hfresh : (s.window.accept c).1 with
    | false =>
        rw [hfresh, if_neg Bool.false_ne_true] at hstep
        rw [if_neg Bool.false_ne_true]
        exact hstep
    | true =>
        rw [hfresh, if_pos rfl] at hstep
        rw [if_pos rfl]
        exact hstep
  · intro hs
    exact absurd (accept_seen s.window c) (ne_true_of_eq_false hs)

theorem agrees_offers (cs : List UInt64) : Agrees (offers cs) :=
  run_invariant (I := Agrees) (fun _ c h => agrees_offer h c) agrees_init cs

theorem mem_map_toNat {c : UInt64} {cs : List UInt64} : c.toNat ∈ cs.map UInt64.toNat ↔ c ∈ cs := by
  rw [List.mem_map]
  constructor
  · rintro ⟨d, hd, heq⟩
    exact UInt64.toNat_inj.mp heq ▸ hd
  · intro hc
    exact ⟨c, hc, rfl⟩

section Reached

variable {s : Offers} (h : Agrees s)
include h

theorem Agrees.seen_eq_false : s.window.seen = false ↔ s.accepted = [] := by
  constructor
  · intro hs
    exact List.map_eq_nil_iff.mp (h.tracks.unseen hs)
  · intro hnil
    by_contra hs
    have hmem := h.tracks.mem (Bool.of_not_eq_false hs)
    rw [hnil] at hmem
    exact absurd hmem List.not_mem_nil

theorem Agrees.seen_eq_true (hne : s.accepted ≠ []) : s.window.seen = true :=
  Bool.of_not_eq_false fun hs => hne (h.seen_eq_false.mp hs)

/-- The mark is the highest accepted counter. -/
theorem Agrees.highest (hne : s.accepted ≠ []) :
    s.window.highest ∈ s.accepted ∧ ∀ d ∈ s.accepted, d ≤ s.window.highest := by
  refine ⟨mem_map_toNat.mp (h.tracks.mem (h.seen_eq_true hne)), ?_⟩
  intro d hd
  exact UInt64.le_iff_toNat_le.mpr (h.tracks.le _ (mem_map_toNat.mpr hd))

/-- What is accepted next, by the set alone. -/
theorem Agrees.accept_iff (c : UInt64) :
    (s.window.accept c).1 = true ↔ c ∉ s.accepted ∧ (s.accepted = [] ∨
      ∃ top ∈ s.accepted, (∀ d ∈ s.accepted, d ≤ top) ∧ (top.toNat : Int) - 64 < c.toNat) := by
  have hword := ReplayWindow.accept_iff h.tracks c.toNat
  rw [accept_toWindow, mem_map_toNat] at hword
  refine hword.trans (and_congr_right fun _ => ?_)
  have hseen : s.window.toWindow.seen = false ↔ s.accepted = [] := h.seen_eq_false
  rw [hseen]
  refine or_congr_right' fun hne => ?_
  obtain ⟨hmem, hmax⟩ := h.highest hne
  have hwidth : s.window.toWindow.highest < c.toNat + ReplayWindow.kWidth ↔
      (s.window.highest.toNat : Int) - 64 < c.toNat := by
    have hmark : s.window.toWindow.highest = s.window.highest.toNat := rfl
    have hkWidth : ReplayWindow.kWidth = 64 := rfl
    omega
  rw [hwidth]
  constructor
  · intro hlt
    exact ⟨_, hmem, hmax, hlt⟩
  · rintro ⟨top, htop, hle, hlt⟩
    have heq : top = s.window.highest := UInt64.le_antisymm (hmax top htop) (hle _ hmem)
    exact heq ▸ hlt

/-- What the bits stand for. -/
theorem Agrees.bit_iff {i : UInt64} (hi : i < 64) (hle : i ≤ s.window.highest) :
    s.window.bitmap &&& (1 <<< i) ≠ 0 ↔ s.window.highest - i ∈ s.accepted := by
  have hi64 : i.toNat < 64 := UInt64.lt_iff_toNat_lt.mp hi
  cases hs : s.window.seen with
  | false =>
      rw [h.seen_eq_false.mp hs, h.unused hs]
      simp
  | true =>
      have hmask : ((1 : UInt64) <<< i).toBitVec = 1#64 <<< i.toNat :=
        toBitVec_shiftLeft_of_lt 1 hi64
      have hbit := h.tracks.bit hs i.toNat hi64 (UInt64.le_iff_toNat_le.mp hle)
      have hsub : (s.window.highest - i).toNat = s.window.toWindow.highest - i.toNat :=
        UInt64.toNat_sub_of_le _ _ hle
      rw [toBitVec_ne_zero, UInt64.toBitVec_and, hmask, ReplayWindow.and_mask_ne_zero _ hi64,
        ← mem_map_toNat, hsub]
      exact hbit

end Reached

/-- Whatever counters are offered and in whatever order, the window decides as
the set of accepted counters does, and its bits are that set just below the
mark. -/
theorem replay_window_refines_set (cs : List UInt64) :
    (∀ c, ((offers cs).window.accept c).1 = true ↔
      c ∉ (offers cs).accepted ∧ ((offers cs).accepted = [] ∨
        ∃ top ∈ (offers cs).accepted, (∀ d ∈ (offers cs).accepted, d ≤ top) ∧
          (top.toNat : Int) - 64 < c.toNat)) ∧
    ((offers cs).accepted ≠ [] →
      (offers cs).window.highest ∈ (offers cs).accepted ∧
        ∀ d ∈ (offers cs).accepted, d ≤ (offers cs).window.highest) ∧
    ∀ i : UInt64, i < 64 → i ≤ (offers cs).window.highest →
      ((offers cs).window.bitmap &&& (1 <<< i) ≠ 0 ↔
        (offers cs).window.highest - i ∈ (offers cs).accepted) :=
  have h := agrees_offers cs
  ⟨h.accept_iff, h.highest, fun _ => h.bit_iff⟩

end WordWindow

end UConnect
