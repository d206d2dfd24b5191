/-
  Foundation/Bytes.lean --- big-endian integers over byte lists.

  `beBytes n v` is what a loop of shifts writes for an `n`-byte field and
  `beVal` what the matching loop reads back.  Values are natural numbers: a
  field of `n` bytes carries `v % 256 ^ n`, which is the truncation a
  fixed-width cast performs.
-/
import Mathlib.Data.List.Basic
import Mathlib.Tactic.Ring
import Mathlib.Data.Nat.ModEq

set_option autoImplicit false

namespace UConnect.Foundation

/-- A byte string. -/
abbrev Bytes := List UInt8

/-- The low `n` bytes of `v`, most significant first. -/
def beBytes : Nat → Nat → Bytes
  | 0, _ => []
  | n + 1, v => UInt8.ofNat (v / 256 ^ n) :: beBytes n v

/-- The value of a byte string read most significant byte first. -/
def beVal (bs : Bytes) : Nat :=
  bs.foldl (fun v b => v * 256 + b.toNat) 0

@[simp] theorem length_beBytes (n v : Nat) : (beBytes n v).length = n := by
  induction n with
  | zero => rfl
  | succ n ih => simp [beBytes, ih]

/-- The accumulator of the reading loop only adds its own weight. -/
theorem foldl_beVal (bs : Bytes) (a : Nat) :
    bs.foldl (fun v b => v * 256 + b.toNat) a = a * 256 ^ bs.length + beVal bs := by
  induction bs generalizing a with
  | nil => simp [beVal]
  | cons b bs ih =>
      simp only [List.foldl_cons, List.length_cons, beVal]
      rw [ih, ih (0 * 256 + b.toNat)]
      ring

theorem beVal_cons (b : UInt8) (bs : Bytes) :
    beVal (b :: bs) = b.toNat * 256 ^ bs.length + beVal bs := by
  have h := foldl_beVal bs (0 * 256 + b.toNat)
  simpa [beVal] using h

theorem beVal_lt (bs : Bytes) : beVal bs < 256 ^ bs.length := by
  induction bs with
  | nil => simp [beVal]
  | cons b bs ih =>
      have hb : b.toNat < 256 := b.toNat_lt
      have hmul : b.toNat * 256 ^ bs.length + 256 ^ bs.length ≤ 256 * 256 ^ bs.length := by
        have h := Nat.mul_le_mul_right (256 ^ bs.length) (Nat.succ_le_of_lt hb)
        rwa [Nat.succ_mul] at h
      rw [beVal_cons, List.length_cons, Nat.pow_succ, Nat.mul_comm (256 ^ bs.length)]
      omega

/-- Reading back what was written yields the value truncated to the field. -/
theorem beVal_beBytes (n v : Nat) : beVal (beBytes n v) = v % 256 ^ n := by
  induction n with
  | zero => simp [beBytes, beVal, Nat.mod_one]
  | succ n ih =>
      rw [beBytes, beVal_cons, length_beBytes, ih, UInt8.toNat_ofNat']
      have hsplit : v % 256 ^ (n + 1) = v % 256 ^ n + 256 ^ n * (v / 256 ^ n % 256) := by
        rw [Nat.pow_succ, Nat.mod_mul]
      rw [hsplit]
      ring

theorem beVal_beBytes_of_lt {n v : Nat} (h : v < 256 ^ n) : beVal (beBytes n v) = v := by
  rw [beVal_beBytes, Nat.mod_eq_of_lt h]

/-- Byte strings of one length are told apart by their values. -/
theorem beVal_inj {as bs : Bytes} (hlen : as.length = bs.length) (h : beVal as = beVal bs) :
    as = bs := by
  induction as generalizing bs with
  | nil => exact (List.length_eq_zero_iff.mp hlen.symm).symm
  | cons a as ih =>
      cases bs with
      | nil => cases hlen
      | cons b bs =>
          have hlen' : as.length = bs.length := Nat.succ.inj hlen
          rw [beVal_cons, beVal_cons, hlen'] at h
          have hlow := beVal_lt as
          have hlow' := beVal_lt bs
          rw [hlen'] at hlow
          -- the first byte is the quotient and the others are the remainder
          have hmod := congrArg (· % 256 ^ bs.length) h
          simp only [Nat.mul_add_mod_of_lt hlow, Nat.mul_add_mod_of_lt hlow'] at hmod
          have hdiv : a.toNat = b.toNat := by
            rw [hmod] at h
            exact Nat.eq_of_mul_eq_mul_right (Nat.pow_pos (by decide)) (Nat.add_right_cancel h)
          rw [ih hlen' hmod, UInt8.toNat_inj.mp hdiv]

/-- Writing back what was read yields the bytes. -/
theorem beBytes_beVal (bs : Bytes) : beBytes bs.length (beVal bs) = bs :=
  beVal_inj (length_beBytes _ _) (beVal_beBytes_of_lt (beVal_lt bs))

end UConnect.Foundation
