/-
  Foundation/Buffers.lean --- byte buffers taken in blocks.

  What block-wise ciphers and hashes do with their buffers: little-endian words,
  a copy into the middle of a buffer, zero padding, a text cut into blocks, and
  a text combined with a keystream that comes in blocks.  The keystream's blocks
  are any function of any position, and the last block of a text may be short.
-/
import UConnect.Foundation.Bytes

set_option autoImplicit false

namespace UConnect.Foundation

/-! ## Little-endian words

The words of ciphers and hashes, least significant byte first. -/

/-- The word at `off`, least significant byte first. -/
def load32Le (bs : Bytes) (off : Nat) : UInt32 :=
  (bs.getD off 0).toUInt32 ||| (bs.getD (off + 1) 0).toUInt32 <<< 8 |||
    (bs.getD (off + 2) 0).toUInt32 <<< 16 ||| (bs.getD (off + 3) 0).toUInt32 <<< 24

/-- The four bytes of a word, least significant first. -/
def store32Le (v : UInt32) : Bytes :=
  [v.toUInt8, (v >>> 8).toUInt8, (v >>> 16).toUInt8, (v >>> 24).toUInt8]

/-- The eight bytes of a word, least significant first. -/
def store64Le (v : UInt64) : Bytes :=
  (List.range 8).map fun i => (v >>> UInt64.ofNat (i * 8)).toUInt8

@[simp] theorem length_store32Le (v : UInt32) : (store32Le v).length = 4 := rfl

@[simp] theorem length_store64Le (v : UInt64) : (store64Le v).length = 8 := by
  rw [store64Le, List.length_map, List.length_range]

/-- The words of a list, one after another. -/
theorem length_flatMap_store32Le (vs : List UInt32) :
    (vs.flatMap store32Le).length = 4 * vs.length := by
  induction vs with
  | nil => rfl
  | cons v vs ih =>
      rw [List.flatMap_cons, List.length_append, ih, length_store32Le, List.length_cons]
      omega

/-- Least significant first is most significant first, read backwards. -/
theorem store64Le_eq (v : UInt64) : store64Le v = (beBytes 8 v.toNat).reverse := by
  have hbyte : ∀ i < 8, (v >>> UInt64.ofNat (i * 8)).toUInt8 = UInt8.ofNat (v.toNat / 256 ^ i) := by
    intro i hi
    apply UInt8.toNat_inj.mp
    have hshift : (UInt64.ofNat (i * 8)).toNat % 64 = i * 8 := by
      rw [UInt64.toNat_ofNat']
      omega
    have hpow : 2 ^ (i * 8) = 256 ^ i := by
      rw [Nat.mul_comm, Nat.pow_mul]
    rw [UInt64.toNat_toUInt8, UInt64.toNat_shiftRight, hshift, Nat.shiftRight_eq_div_pow, hpow,
      UInt8.toNat_ofNat']
  have hmap : store64Le v = (List.range 8).map fun i => UInt8.ofNat (v.toNat / 256 ^ i) :=
    List.map_congr_left fun i hi => hbyte i (List.mem_range.mp hi)
  rw [hmap]
  rfl

theorem store64Le_inj {v w : UInt64} (h : store64Le v = store64Le w) : v = w := by
  rw [store64Le_eq, store64Le_eq] at h
  have hval := congrArg beVal (List.reverse_inj.mp h)
  rw [beVal_beBytes_of_lt v.toNat_lt, beVal_beBytes_of_lt w.toNat_lt] at hval
  exact UInt64.toNat_inj.mp hval

/-! ## Copies and padding

Writing into the middle of a buffer, and filling one up with zeros. -/

/-- `memcpy(dst + off, src, |src|)`. -/
def copyAt (dst : Bytes) (off : Nat) (src : Bytes) : Bytes :=
  dst.take off ++ src ++ dst.drop (off + src.length)

theorem length_copyAt {dst src : Bytes} {off : Nat} (h : off + src.length ≤ dst.length) :
    (copyAt dst off src).length = dst.length := by
  rw [copyAt, List.length_append, List.length_append, List.length_take, List.length_drop]
  omega

/-- What stands in front of the end of the copy. -/
theorem take_copyAt {dst : Bytes} {off : Nat} (h : off ≤ dst.length) (src : Bytes) :
    (copyAt dst off src).take (off + src.length) = dst.take off ++ src := by
  rw [copyAt]
  apply List.take_left'
  rw [List.length_append, List.length_take, Nat.min_eq_left h]

theorem copyAt_zero (dst src : Bytes) : copyAt dst 0 src = src ++ dst.drop src.length := by
  rw [copyAt, List.take_zero, List.nil_append, Nat.zero_add]

/-- Zeros up to `n` bytes. -/
def zeroPad (n : Nat) (bs : Bytes) : Bytes := bs ++ List.replicate (n - bs.length) 0

theorem length_zeroPad {n : Nat} {bs : Bytes} (h : bs.length ≤ n) : (zeroPad n bs).length = n := by
  rw [zeroPad, List.length_append, List.length_replicate]
  omega

/-! ## Blocks of a text

A text as blocks of a given size, the last of which may be short. -/

/-- The text in blocks of `n` bytes; the last one may be shorter. -/
def blocks (n : Nat) (bs : Bytes) : List Bytes :=
  (List.range ((bs.length + n - 1) / n)).map fun i => (bs.drop (n * i)).take n

theorem blocks_nil {n : Nat} (hn : 0 < n) : blocks n [] = [] := by
  have hzero : (n - 1) / n = 0 := Nat.div_eq_of_lt (by omega)
  simp [blocks, hzero]

/-- A text of at most one block. -/
theorem blocks_single {n : Nat} {bs : Bytes} (hne : bs ≠ []) (hle : bs.length ≤ n) :
    blocks n bs = [bs] := by
  have hpos : 0 < bs.length := List.length_pos_iff.mpr hne
  have hone : (bs.length + n - 1) / n = 1 := by
    apply Nat.div_eq_of_lt_le
    · omega
    · omega
  rw [blocks, hone]
  simp [List.take_of_length_le hle]

/-- A full block in front. -/
theorem blocks_append {n : Nat} {b bs : Bytes} (hn : 0 < n) (hb : b.length = n) :
    blocks n (b ++ bs) = b :: blocks n bs := by
  have hcount : ((b ++ bs).length + n - 1) / n = (bs.length + n - 1) / n + 1 := by
    rw [List.length_append, hb, ← Nat.add_div_right _ hn]
    congr 1
    omega
  rw [blocks, hcount, List.range_succ_eq_map, List.map_cons, List.map_map]
  refine congrArg₂ List.cons ?_ ?_
  · rw [Nat.mul_zero, List.drop_zero, List.take_left' hb]
  · apply List.map_congr_left
    intro i _
    have hoff : n * (i + 1) = b.length + n * i := by
      rw [hb, Nat.mul_add, Nat.mul_one, Nat.add_comm]
    rw [Function.comp_apply, Nat.succ_eq_add_one, hoff, List.drop_length_add_append]

/-- Full blocks and a last one are cut where they were joined. -/
theorem blocks_flatten_append {n : Nat} {full : List Bytes} {rest : Bytes} (hn : 0 < n)
    (hfull : ∀ b ∈ full, b.length = n) (hne : rest ≠ []) (hle : rest.length ≤ n) :
    blocks n (full.flatten ++ rest) = full ++ [rest] := by
  induction full with
  | nil => exact blocks_single hne hle
  | cons b full ih =>
      rw [List.flatten_cons, List.append_assoc, blocks_append hn (hfull b List.mem_cons_self),
        ih fun b' hb' => hfull b' (List.mem_cons_of_mem _ hb')]
      rfl

/-! ## Keystreams

Combining a text with a stream of blocks, each of which depends on its position. -/

/-- Byte by byte, as far as both go. -/
def xorBytes (as bs : Bytes) : Bytes := List.zipWith (· ^^^ ·) as bs

@[simp] theorem length_xorBytes (as bs : Bytes) :
    (xorBytes as bs).length = min as.length bs.length := List.length_zipWith

theorem xorBytes_xorBytes {as bs : Bytes} (h : as.length ≤ bs.length) :
    xorBytes (xorBytes as bs) bs = as := by
  induction as generalizing bs with
  | nil => rfl
  | cons a as ih =>
      cases bs with
      | nil => cases h
      | cons b bs =>
          have htail := ih (Nat.le_of_succ_le_succ h)
          have hhead : (a ^^^ b) ^^^ b = a := by
            rw [UInt8.xor_assoc, UInt8.xor_self, UInt8.xor_zero]
          simp only [xorBytes, List.zipWith_cons_cons] at htail ⊢
          rw [hhead, htail]

/-- What stands behind the shorter text does not matter. -/
theorem xorBytes_append {as bs : Bytes} (h : as.length = bs.length) (cs : Bytes) :
    xorBytes as (bs ++ cs) = xorBytes as bs := by
  calc xorBytes as (bs ++ cs)
      = xorBytes (as ++ []) (bs ++ cs) := by rw [List.append_nil]
    _ = xorBytes as bs ++ xorBytes [] cs := List.zipWith_append h
    _ = xorBytes as bs := List.append_nil _

/-- A number combined with another is its bytes combined with the other's. -/
theorem beBytes_xor (n v w : Nat) : beBytes n (v ^^^ w) = xorBytes (beBytes n v) (beBytes n w) := by
  induction n with
  | zero => rfl
  | succ n ih =>
      have hpow : 256 ^ n = 2 ^ (8 * n) := by
        rw [Nat.pow_mul]
      have hhead : (v ^^^ w) / 256 ^ n = (v / 256 ^ n) ^^^ (w / 256 ^ n) := by
        rw [hpow, ← Nat.shiftRight_eq_div_pow, ← Nat.shiftRight_eq_div_pow,
          ← Nat.shiftRight_eq_div_pow, Nat.shiftRight_xor_distrib]
      rw [beBytes, ih, hhead, UInt8.ofNat_xor]
      rfl

section Stream

variable {κ : Type} (block : κ → Bytes) (next : κ → κ) (n : Nat)

/-- The text combined with the blocks from `k` on, `n` bytes with each. -/
def xorStream : Nat → κ → Bytes → Bytes
  | 0, _, _ => []
  | fuel + 1, k, input =>
      if input.isEmpty then []
      else
        let m := min input.length n
        xorBytes (input.take m) (block k) ++ xorStream fuel (next k) (input.drop m)

variable {block n} (hn : 0 < n) (hblock : ∀ k, (block k).length = n)
include hn hblock

theorem length_xorStream (fuel : Nat) (k : κ) (input : Bytes) (hfuel : input.length ≤ fuel) :
    (xorStream block next n fuel k input).length = input.length := by
  induction fuel generalizing k input with
  | zero =>
      rw [Nat.le_zero.mp hfuel]
      rfl
  | succ fuel ih =>
      unfold xorStream
      split
      · rename_i hempty
        rw [List.isEmpty_iff.mp hempty]
      · rename_i hne
        have hpos : 0 < input.length := by
          rw [List.length_pos_iff]
          exact fun h => hne (List.isEmpty_iff.mpr h)
        have hrest : (input.drop (min input.length n)).length ≤ fuel := by
          rw [List.length_drop]
          omega
        simp only [List.length_append, length_xorBytes, List.length_take, hblock, ih _ _ hrest,
          List.length_drop]
        omega

/-- The same keystream once more gives the text back. -/
theorem xorStream_xorStream (fuel : Nat) (k : κ) (input : Bytes) (hfuel : input.length ≤ fuel) :
    xorStream block next n fuel k (xorStream block next n fuel k input) = input := by
  -- on the number of blocks: the combined text is cut at the same places as the text
  induction fuel generalizing k input with
  | zero => exact (List.length_eq_zero_iff.mp (Nat.le_zero.mp hfuel)).symm
  | succ fuel ih =>
      by_cases hempty : input.isEmpty = true
      · rw [List.isEmpty_iff.mp hempty]
        rfl
      have hpos : 0 < input.length := by
        rw [List.length_pos_iff]
        exact fun h => hempty (List.isEmpty_iff.mpr h)
      have hrest : (input.drop (min input.length n)).length ≤ fuel := by
        rw [List.length_drop]
        omega
      have hlen := length_xorStream next hn hblock (fuel + 1) k input hfuel
      have hhead : (xorBytes (input.take (min input.length n)) (block k)).length =
          min input.length n := by
        rw [length_xorBytes, List.length_take, hblock]
        omega
      have hstep : xorStream block next n (fuel + 1) k input =
          xorBytes (input.take (min input.length n)) (block k) ++
            xorStream block next n fuel (next k) (input.drop (min input.length n)) := by
        rw [xorStream, if_neg hempty]
      have houter : (xorStream block next n (fuel + 1) k input).isEmpty = false := by
        rw [List.isEmpty_eq_false_iff, ← List.length_pos_iff, hlen]
        exact hpos
      rw [xorStream, houter, if_neg Bool.false_ne_true, hlen, hstep]
      dsimp only
      rw [List.take_left' hhead, List.drop_left' hhead, ih _ _ hrest, xorBytes_xorBytes,
        List.take_append_drop]
      rw [List.length_take, hblock]
      omega

end Stream

end UConnect.Foundation
