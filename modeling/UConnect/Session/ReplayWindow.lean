/-
  Session/ReplayWindow.lean --- the anti-replay window of the datagram channel.

  Source: `ReplayWindow` in src/session/session.hpp and src/session/session.cpp.

  A high-water mark and a bitmap of the 64 counters below it.  `Tracks` says
  what the three fields mean: which counters have been accepted.  The bitmap
  forgets what falls out of the window, but nothing that old is ever accepted
  again, so no counter is accepted twice.
-/
import UConnect.Foundation.Bytes
import Mathlib.Tactic.ByContra

set_option autoImplicit false

namespace UConnect

/-- `ReplayWindow`.  Counters are natural numbers here; the machine words the
source computes with are in Session/ReplaySet.  `seen` is not in the bitmap's
place: before the first packet there is no highest counter. -/
structure ReplayWindow where
  highest : Nat := 0
  bitmap : BitVec 64 := 0
  seen : Bool := false
  deriving DecidableEq

namespace ReplayWindow

/-- `kWidth`: how far behind the newest packet one may still be taken. -/
def kWidth : Nat := 64

/-- `accept`: whether `counter` is new, and the window after it. -/
def accept (w : ReplayWindow) (counter : Nat) : Bool × ReplayWindow :=
  if !w.seen then (true, { highest := counter, bitmap := 1, seen := true })
  else if counter > w.highest then
    let shift := counter - w.highest
    let bitmap := if shift ≥ kWidth then 0 else w.bitmap <<< shift
    (true, { w with bitmap := bitmap ||| 1, highest := counter })
  else
    let behind := w.highest - counter
    if behind ≥ kWidth then (false, w)
    else
      let mask : BitVec 64 := 1#64 <<< behind
      if w.bitmap &&& mask ≠ 0 then (false, w)
      else (true, { w with bitmap := w.bitmap ||| mask })

/-- The window has accepted exactly the counters in `acc`. -/
structure Tracks (w : ReplayWindow) (acc : List Nat) : Prop where
  /-- Nothing was accepted before the first packet. -/
  unseen : w.seen = false → acc = []
  /-- The mark is an accepted counter. -/
  mem : w.seen = true → w.highest ∈ acc
  /-- The mark is the highest of them. -/
  le : ∀ c ∈ acc, c ≤ w.highest
  /-- Bit `i` is the counter `i` below the mark. -/
  bit : w.seen = true → ∀ i < kWidth, i ≤ w.highest →
    (w.bitmap.getLsbD i = true ↔ w.highest - i ∈ acc)

theorem tracks_init : Tracks {} [] where
  unseen _ := rfl
  mem h := by cases h
  le c hc := by cases hc
  bit h := by cases h

/-- Testing a bit with a mask. -/
theorem and_mask_ne_zero (x : BitVec 64) {i : Nat} (hi : i < 64) :
    x &&& (1#64 <<< i) ≠ 0 ↔ x.getLsbD i = true := by
  constructor
  · intro h
    by_contra hbit
    apply h
    apply BitVec.eq_of_getLsbD_eq
    intro j hj
    by_cases hji : j = i
    · subst hji
      simp [hbit]
    · simp only [BitVec.getLsbD_and, BitVec.getLsbD_shiftLeft, BitVec.getLsbD_one]
      by_cases hlt : j < i
      · simp [hlt]
      · have hsub : ¬ j - i = 0 := by omega
        simp [hsub]
  · intro hbit h
    have hget : (x &&& (1#64 <<< i)).getLsbD i = (0 : BitVec 64).getLsbD i := by rw [h]
    rw [BitVec.getLsbD_and, hbit, BitVec.getLsbD_shiftLeft] at hget
    simp [hi] at hget

theorem getLsbD_or_mask (x : BitVec 64) {i j : Nat} (hi : i < 64) :
    (x ||| (1#64 <<< i)).getLsbD j = (x.getLsbD j || j == i) := by
  simp only [BitVec.getLsbD_or, BitVec.getLsbD_shiftLeft, BitVec.getLsbD_one]
  by_cases hji : j = i
  · subst hji
    simp [hi]
  · by_cases hlt : j < i
    · simp [hlt, hji]
    · have hsub : ¬ j - i = 0 := by omega
      simp [hsub, hji]

/-- Everything `accept` can do. -/
theorem accept_cases (w : ReplayWindow) (c : Nat) :
    (w.seen = false ∧ w.accept c = (true, { highest := c, bitmap := 1, seen := true })) ∨
    (w.seen = true ∧ w.highest < c ∧ w.accept c =
      (true, { w with
        bitmap := (if c - w.highest ≥ kWidth then 0 else w.bitmap <<< (c - w.highest)) ||| 1
        highest := c })) ∨
    (w.seen = true ∧ c ≤ w.highest ∧ kWidth ≤ w.highest - c ∧ w.accept c = (false, w)) ∨
    (w.seen = true ∧ c ≤ w.highest ∧ w.highest - c < kWidth ∧
      w.bitmap.getLsbD (w.highest - c) = true ∧ w.accept c = (false, w)) ∨
    (w.seen = true ∧ c ≤ w.highest ∧ w.highest - c < kWidth ∧
      w.bitmap.getLsbD (w.highest - c) = false ∧ w.accept c =
        (true, { w with bitmap := w.bitmap ||| (1#64 <<< (w.highest - c)) })) := by
  unfold accept
  cases hs : w.seen with
  | false => exact .inl ⟨rfl, rfl⟩
  | true =>
      rw [Bool.not_true, if_neg Bool.false_ne_true]
      refine .inr ?_
      split
      · rename_i hgt
        exact .inl ⟨rfl, hgt, rfl⟩
      · rename_i hle
        have hle : c ≤ w.highest := Nat.le_of_not_lt hle
        dsimp only
        refine .inr ?_
        split
        · rename_i hold
          exact .inl ⟨rfl, hle, hold, rfl⟩
        · rename_i hnew
          have hlt : w.highest - c < kWidth := Nat.lt_of_not_le hnew
          split
          · rename_i hbit
            rw [and_mask_ne_zero _ hlt] at hbit
            exact .inr (.inl ⟨rfl, hle, hlt, hbit, rfl⟩)
          · rename_i hbit
            rw [and_mask_ne_zero _ hlt, Bool.not_eq_true] at hbit
            exact .inr (.inr ⟨rfl, hle, hlt, hbit, rfl⟩)

variable {w : ReplayWindow} {acc : List Nat}

/-- A counter is accepted once, and only while the window still reaches it. -/
theorem accept_iff (h : Tracks w acc) (c : Nat) :
    (w.accept c).1 = true ↔ c ∉ acc ∧ (w.seen = false ∨ w.highest < c + kWidth) := by
  obtain ⟨hs, he⟩ | ⟨hs, hgt, he⟩ | ⟨hs, hle, hold, he⟩ | ⟨hs, hle, hlt, hbit, he⟩ |
    ⟨hs, hle, hlt, hbit, he⟩ := accept_cases w c
  · rw [he, h.unseen hs]
    simp [hs]
  · rw [he]
    have hnew : c ∉ acc := fun hc => absurd (h.le c hc) (by omega)
    simp only [true_iff]
    exact ⟨hnew, .inr (by omega)⟩
  · rw [he]
    simp only [Bool.false_eq_true, false_iff, not_and, not_or, Bool.not_eq_false]
    intro _
    exact ⟨hs, by omega⟩
  · rw [he]
    have hmem := (h.bit hs _ hlt (by omega)).mp hbit
    rw [Nat.sub_sub_self hle] at hmem
    simp [hmem]
  · rw [he]
    have hmem := h.bit hs _ hlt (by omega)
    rw [hbit, Nat.sub_sub_self hle] at hmem
    simp only [true_iff]
    exact ⟨fun hc => absurd (hmem.mpr hc) Bool.false_ne_true, .inr (by omega)⟩

/-- A new mark shifts the bitmap by the distance it moved. -/
theorem bit_of_jump (h : Tracks w acc) (hs : w.seen = true) {c : Nat} (hgt : w.highest < c)
    {i : Nat} (hi : i < kWidth) (hic : i ≤ c) :
    ((if c - w.highest ≥ kWidth then 0 else w.bitmap <<< (c - w.highest)) |||
      1#64).getLsbD i = true ↔ c - i ∈ c :: acc := by
  rw [BitVec.getLsbD_or, BitVec.getLsbD_one, List.mem_cons]
  by_cases hi0 : i = 0
  · subst hi0
    simp
  · have hne : ¬ c - i = c := by omega
    have hzero : decide (i = 0) = false := decide_eq_false hi0
    simp only [hne, false_or, hzero, Bool.and_false, Bool.or_false]
    have hold : c - i ∈ acc → c - w.highest ≤ i := by
      intro hmem
      have := h.le _ hmem
      omega
    split
    · rename_i hfar
      simp only [BitVec.ofNat_eq_ofNat, BitVec.getLsbD_zero, Bool.false_eq_true, false_iff]
      intro hmem
      have := hold hmem
      omega
    · rename_i hnear
      have hi64 : i < 64 := hi
      rw [BitVec.getLsbD_shiftLeft]
      by_cases hlt : i < c - w.highest
      · simp only [hi64, decide_true, Bool.true_and, hlt, Bool.not_true, Bool.false_and,
          Bool.false_eq_true, false_iff]
        intro hmem
        have := hold hmem
        omega
      · simp only [hi64, decide_true, Bool.true_and, hlt, decide_false, Bool.not_false]
        rw [h.bit hs (i - (c - w.highest)) (by omega) (by omega)]
        have heq : w.highest - (i - (c - w.highest)) = c - i := by omega
        rw [heq]

/-- The window keeps track. -/
theorem Tracks.accept (h : Tracks w acc) (c : Nat) :
    Tracks (w.accept c).2 (if (w.accept c).1 then c :: acc else acc) := by
  obtain ⟨hs, he⟩ | ⟨hs, hgt, he⟩ | ⟨hs, hle, hold, he⟩ | ⟨hs, hle, hlt, hbit, he⟩ |
    ⟨hs, hle, hlt, hbit, he⟩ := accept_cases w c
  · rw [he, h.unseen hs]
    refine ⟨fun h => Bool.noConfusion h, fun _ => by simp, fun c' hc' => ?_, fun _ i _ hi => ?_⟩
    · rw [if_pos rfl, List.mem_singleton] at hc'
      exact hc'.le
    dsimp only at hi ⊢
    rw [show (1 : BitVec 64) = 1#64 from rfl, BitVec.getLsbD_one]
    simp only [if_true, List.mem_singleton]
    constructor
    · intro hbit
      have : i = 0 := by simpa using hbit
      omega
    · intro hci
      have : i = 0 := by omega
      simp [this]
  · rw [he]
    refine ⟨fun h => ?_, fun _ => by simp, fun c' hc' => ?_, fun _ i hi hic => ?_⟩
    · dsimp only at h
      rw [hs] at h
      cases h
    · obtain rfl | hc' := List.mem_cons.mp hc'
      · exact Nat.le_refl _
      · exact Nat.le_of_lt (Nat.lt_of_le_of_lt (h.le c' hc') hgt)
    · exact bit_of_jump h hs hgt hi hic
  · rw [he]
    exact h
  · rw [he]
    exact h
  · rw [he]
    refine ⟨fun h => ?_, fun _ => List.mem_cons_of_mem _ (h.mem hs), fun c' hc' => ?_,
      fun _ i hi hic => ?_⟩
    · dsimp only at h
      rw [hs] at h
      cases h
    · obtain rfl | hc' := List.mem_cons.mp hc'
      · exact hle
      · exact h.le c' hc'
    · dsimp only at hic ⊢
      rw [getLsbD_or_mask _ hlt, Bool.or_eq_true, h.bit hs i hi hic, beq_iff_eq, if_pos rfl,
        List.mem_cons, or_comm]
      have : i = w.highest - c ↔ w.highest - i = c := by omega
      rw [this]

/-- Only membership matters. -/
theorem Tracks.of_mem_iff (h : Tracks w acc) {acc' : List Nat}
    (hiff : ∀ c, c ∈ acc ↔ c ∈ acc') : Tracks w acc' where
  unseen hs := by
    rw [List.eq_nil_iff_forall_not_mem]
    intro c hc
    rw [← hiff, h.unseen hs] at hc
    cases hc
  mem hs := (hiff _).mp (h.mem hs)
  le c hc := h.le c ((hiff c).mpr hc)
  bit hs i hi hle := (h.bit hs i hi hle).trans (hiff _)

/-- An accepted counter is new. -/
theorem Tracks.not_mem_of_accept (h : Tracks w acc) {c : Nat} (ha : (w.accept c).1 = true) :
    c ∉ acc := ((accept_iff h c).mp ha).1

end ReplayWindow

end UConnect
