/-
  Crypto/Blake2s.lean --- BLAKE2s, streaming and in one piece.

  Source: src/crypto/blake2s.cpp.

  The class keeps the last block back, since only `finish` knows that it is the
  last.  `rfcDigest` is the digest of RFC 7693, section 3.3, for a whole
  message; `Streams` says which blocks of it a half-fed hash has compressed and
  which bytes it still holds, and every split of a message into updates leads to
  the same digest.
-/
import UConnect.Crypto.Primitives
import UConnect.Foundation.Buffers
import UConnect.Foundation.Run

set_option autoImplicit false

namespace UConnect.Crypto

open UConnect.Foundation

/-! ## The compression function

The words and the schedule of the specification, over 32-bit words that wrap. -/

/-- `kIV`, the initial words. -/
def kIV : List UInt32 :=
  [0x6A09E667, 0xBB67AE85, 0x3C6EF372, 0xA54FF53A, 0x510E527F, 0x9B05688C, 0x1F83D9AB, 0x5BE0CD19]

/-- `kSigma`: which word of the block each step of a round takes. -/
def kSigma : List (List Nat) :=
  [[0, 1, 2, 3, 4, 5, 6, 7, 8, 9, 10, 11, 12, 13, 14, 15],
   [14, 10, 4, 8, 9, 15, 13, 6, 1, 12, 0, 2, 11, 7, 5, 3],
   [11, 8, 12, 0, 5, 2, 15, 13, 10, 14, 3, 6, 7, 1, 9, 4],
   [7, 9, 3, 1, 13, 12, 11, 14, 2, 6, 5, 10, 4, 0, 15, 8],
   [9, 0, 5, 7, 2, 4, 10, 15, 14, 1, 11, 12, 6, 8, 3, 13],
   [2, 12, 6, 10, 0, 11, 8, 3, 4, 13, 7, 5, 15, 14, 1, 9],
   [12, 5, 1, 15, 14, 13, 4, 10, 0, 7, 6, 3, 9, 2, 8, 11],
   [13, 11, 7, 14, 12, 1, 3, 9, 5, 0, 15, 4, 8, 6, 2, 10],
   [6, 15, 14, 9, 11, 3, 0, 8, 12, 2, 13, 7, 1, 4, 10, 5],
   [10, 2, 8, 4, 7, 6, 1, 5, 15, 11, 9, 14, 3, 12, 13, 0]]

/-- `rotr32`; the source is never called with 0 or 32. -/
def rotr32 (x : UInt32) (n : UInt32) : UInt32 := (x >>> n) ||| (x <<< (32 - n))

/-- The mixing function `G`. -/
def mixG (v : List UInt32) (a b c d : Nat) (x y : UInt32) : List UInt32 :=
  let v := v.set a (v.getD a 0 + v.getD b 0 + x)
  let v := v.set d (rotr32 (v.getD d 0 ^^^ v.getD a 0) 16)
  let v := v.set c (v.getD c 0 + v.getD d 0)
  let v := v.set b (rotr32 (v.getD b 0 ^^^ v.getD c 0) 12)
  let v := v.set a (v.getD a 0 + v.getD b 0 + y)
  let v := v.set d (rotr32 (v.getD d 0 ^^^ v.getD a 0) 8)
  let v := v.set c (v.getD c 0 + v.getD d 0)
  v.set b (rotr32 (v.getD b 0 ^^^ v.getD c 0) 7)

/-- One round: the message words in the order `s`. -/
def mixRound (m : List UInt32) (v : List UInt32) (s : List Nat) : List UInt32 :=
  let word := fun i => m.getD (s.getD i 0) 0
  let v := mixG v 0 4 8 12 (word 0) (word 1)
  let v := mixG v 1 5 9 13 (word 2) (word 3)
  let v := mixG v 2 6 10 14 (word 4) (word 5)
  let v := mixG v 3 7 11 15 (word 6) (word 7)
  let v := mixG v 0 5 10 15 (word 8) (word 9)
  let v := mixG v 1 6 11 12 (word 10) (word 11)
  let v := mixG v 2 7 8 13 (word 12) (word 13)
  mixG v 3 4 9 14 (word 14) (word 15)

/-- The chaining value. -/
abbrev HashWords := Vector UInt32 8

/-- The body of `compress`, over the two halves of the counter. -/
def compressWords (h : HashWords) (block : Bytes) (t0 t1 : UInt32) (last : Bool) : HashWords :=
  let m := (List.range 16).map fun i => load32Le block (i * 4)
  let v := h.toList ++ kIV
  let v := v.set 12 (v.getD 12 0 ^^^ t0)
  let v := v.set 13 (v.getD 13 0 ^^^ t1)
  let v := if last then v.set 14 (~~~v.getD 14 0) else v
  let v := kSigma.foldl (mixRound m) v
  Vector.ofFn fun i => h.get i ^^^ (v.getD i.val 0 ^^^ v.getD (i.val + 8) 0)

/-- The chaining value of an empty hash: the parameter block is folded into the
first word. -/
def initialWords (keyLen outLen : Nat) : HashWords :=
  Vector.ofFn fun i =>
    if i.val = 0 then
      kIV.getD 0 0 ^^^ ((0x01010000 : UInt32) ^^^ (UInt32.ofNat keyLen <<< 8) ^^^ UInt32.ofNat outLen)
    else kIV.getD i.val 0

/-! ## The class

The state between two updates: the chain, the counter of bytes, and the bytes
not yet compressed, of which there are at most a block. -/

/-- `Blake2s`.  The array `buf` keeps what older calls left behind `bufLen`. -/
structure Blake2s where
  h : HashWords
  buf : Bytes := List.replicate kBlockLen 0
  bufLen : Nat := 0
  counter : UInt64 := 0
  outLen : Nat := kHashLen
  done : Bool := false

/-- The sum of two `size_t`. -/
def addSize (a b : Nat) : Nat := (a + b) % 2 ^ 64

namespace Blake2s

/-- `compress`, of the state's own chain and counter, split into two words. -/
def compress (s : Blake2s) (block : Bytes) (last : Bool) : Blake2s :=
  { s with h := compressWords s.h block s.counter.toUInt32 (s.counter >>> 32).toUInt32 last }

/-- A block that is not the last: it is counted, then compressed. -/
def takeBlock (s : Blake2s) (block : Bytes) : Blake2s :=
  { s with counter := s.counter + UInt64.ofNat kBlockLen }.compress block false

/-- The loop of `update` over the whole blocks of the input. -/
def takeBlocks : Nat → Blake2s → Bytes → Blake2s × Bytes
  | 0, s, p => (s, p)
  | fuel + 1, s, p =>
      if p.length > kBlockLen then
        takeBlocks fuel (s.takeBlock (p.take kBlockLen)) (p.drop kBlockLen)
      else (s, p)

/-- The buffer filled up from the front of the input. -/
def filled (s : Blake2s) (input : Bytes) : Bytes :=
  copyAt s.buf s.bufLen (input.take (kBlockLen - s.bufLen))

/-- The branch of `update` that fills the buffer, compresses it and goes on. -/
def flush (s : Blake2s) (input : Bytes) : Blake2s × Bytes :=
  let fill := kBlockLen - s.bufLen
  let next := { s with buf := s.filled input }.takeBlock (s.filled input)
  takeBlocks input.length { next with bufLen := 0 } (input.drop fill)

/-- The end of `update`: the rest of the input stays in the buffer. -/
def keep (s : Blake2s) (p : Bytes) : Blake2s :=
  { s with buf := copyAt s.buf s.bufLen p, bufLen := s.bufLen + p.length }

/-- `update`.  A block is compressed only when a byte behind it has come. -/
def update (s : Blake2s) (input : Bytes) : Blake2s :=
  if input.isEmpty then s
  else if addSize s.bufLen input.length > kBlockLen then
    keep (s.flush input).1 (s.flush input).2
  else s.keep input

/-- `Blake2s::Blake2s`: a key is a first block of its own. -/
def create (key : Bytes) (outLen : Nat) : Blake2s :=
  let s : Blake2s := { h := initialWords key.length outLen, outLen := outLen }
  if key.isEmpty then s else s.update (copyInto kBlockLen key).toList

/-- `finish` into `out`. -/
def finish (s : Blake2s) (out : Bytes) : Blake2s × Bytes :=
  if s.done then (s, out)
  else
    let s := { s with done := true, counter := s.counter + UInt64.ofNat s.bufLen }
    let s := { s with buf := copyAt s.buf s.bufLen (List.replicate (kBlockLen - s.bufLen) 0) }
    let s := s.compress s.buf true
    let full := s.h.toList.flatMap store32Le
    let n := if out.length < s.outLen then out.length else s.outLen
    ({ s with buf := List.replicate kBlockLen 0 }, copyAt out 0 (full.take n))

end Blake2s

/-! ## RFC 7693

The digest of a whole message, as the specification gives it and without the
class. -/

/-- The compression function with the byte count as a number. -/
def rfcF (h : HashWords) (block : Bytes) (t : Nat) (last : Bool) : HashWords :=
  compressWords h block (UInt32.ofNat (t % 2 ^ 32)) (UInt32.ofNat (t / 2 ^ 32)) last

/-- The data blocks: the key block if there is a key, then the message, both
padded with zeros; one block of zeros if that is nothing. -/
def dataBlocks (key msg : Bytes) : List Bytes :=
  let d := (if key.isEmpty then [] else [zeroPad kBlockLen key]) ++
    (blocks kBlockLen msg).map (zeroPad kBlockLen)
  if d.isEmpty then [List.replicate kBlockLen 0] else d

/-- All blocks but the last: block `i` is compressed with `(i + 1)` blocks
counted. -/
def absorbed (h : HashWords) (full : List Bytes) : HashWords :=
  full.zipIdx.foldl (fun h d => rfcF h d.1 ((d.2 + 1) * kBlockLen) false) h

/-- The digest of `outLen` bytes. -/
def rfcDigest (key : Bytes) (outLen : Nat) (msg : Bytes) : Bytes :=
  let d := dataBlocks key msg
  let ll := if key.isEmpty then msg.length else msg.length + kBlockLen
  let h := rfcF (absorbed (initialWords key.length outLen) d.dropLast) (d.getLastD []) ll true
  (h.toList.flatMap store32Le).take outLen

/-! ## Compressed blocks

What a half-fed hash has in its chain, in terms of the message it was fed. -/

theorem absorbed_concat (h : HashWords) (full : List Bytes) (block : Bytes) :
    absorbed h (full ++ [block]) =
      rfcF (absorbed h full) block ((full.length + 1) * kBlockLen) false := by
  rw [absorbed, List.zipIdx_append, List.foldl_append]
  simp [absorbed]

namespace Blake2s

/-- The two halves of the counter are those of the number it stands for. -/
theorem compress_h (s : Blake2s) (block : Bytes) (last : Bool) :
    (s.compress block last).h = rfcF s.h block s.counter.toNat last := by
  have hlow : s.counter.toUInt32 = UInt32.ofNat (s.counter.toNat % 2 ^ 32) := by
    apply UInt32.toNat_inj.mp
    rw [UInt64.toNat_toUInt32, UInt32.toNat_ofNat', Nat.mod_mod]
  have hhigh : (s.counter >>> 32).toUInt32 = UInt32.ofNat (s.counter.toNat / 2 ^ 32) := by
    apply UInt32.toNat_inj.mp
    rw [UInt64.toNat_toUInt32, UInt32.toNat_ofNat', UInt64.toNat_shiftRight,
      Nat.shiftRight_eq_div_pow]
    rfl
  rw [compress, rfcF, hlow, hhigh]

/-- What a half-fed hash that started from `h` has compressed, and the bytes it
holds. -/
structure Holds (h : HashWords) (outLen : Nat) (s : Blake2s) (full : List Bytes)
    (held : Bytes) : Prop where
  size : ∀ b ∈ full, b.length = kBlockLen
  words : s.h = absorbed h full
  counter : s.counter.toNat = full.length * kBlockLen
  bufSize : s.buf.length = kBlockLen
  bufLen : s.bufLen = held.length
  buf : s.buf.take s.bufLen = held
  le : held.length ≤ kBlockLen
  outLen : s.outLen = outLen
  unfinished : s.done = false

variable {h : HashWords} {outLen : Nat} {s : Blake2s} {full : List Bytes} {held : Bytes}

theorem holds_init (h : HashWords) (outLen : Nat) :
    Holds h outLen { h := h, outLen := outLen } [] [] where
  size _ hb := absurd hb List.not_mem_nil
  words := rfl
  counter := rfl
  bufSize := List.length_replicate
  bufLen := rfl
  buf := rfl
  le := Nat.zero_le _
  outLen := rfl
  unfinished := rfl

theorem length_flatten_full (hsize : ∀ b ∈ full, b.length = kBlockLen) :
    full.flatten.length = full.length * kBlockLen := by
  rw [List.length_flatten, List.map_congr_left hsize, List.map_const', List.sum_replicate_nat]

/-- One more block; the counter does not wrap. -/
theorem Holds.takeBlock (hs : Holds h outLen s full held) {block : Bytes}
    (hblock : block.length = kBlockLen) (hroom : (full.length + 1) * kBlockLen < 2 ^ 64) :
    Holds h outLen (s.takeBlock block) (full ++ [block]) held := by
  have hadd : (s.counter + UInt64.ofNat kBlockLen).toNat = (full.length + 1) * kBlockLen := by
    have hword : (UInt64.ofNat kBlockLen).toNat = kBlockLen := rfl
    rw [UInt64.toNat_add, hs.counter, hword, ← Nat.succ_mul]
    exact Nat.mod_eq_of_lt hroom
  refine { hs with size := ?_, words := ?_, counter := ?_ }
  · intro b hb
    rcases List.mem_append.mp hb with hb | hb
    · exact hs.size b hb
    · rw [List.mem_singleton.mp hb, hblock]
  · rw [Blake2s.takeBlock, compress_h, absorbed_concat, hadd, hs.words]
  · rw [List.length_append, List.length_singleton]
    exact hadd

/-- The loop takes whole blocks and leaves at most one, and something if there
was something. -/
theorem Holds.takeBlocks (fuel : Nat) {p : Bytes} (hs : Holds h outLen s full held)
    (hfuel : p.length ≤ fuel) (hroom : full.length * kBlockLen + p.length < 2 ^ 64) :
    ∃ more, Holds h outLen (takeBlocks fuel s p).1 (full ++ more) held ∧
      more.flatten ++ (Blake2s.takeBlocks fuel s p).2 = p ∧
      (Blake2s.takeBlocks fuel s p).2.length ≤ kBlockLen ∧
      (p ≠ [] → (Blake2s.takeBlocks fuel s p).2 ≠ []) := by
  induction fuel generalizing s p full with
  | zero =>
      refine ⟨[], by rwa [List.append_nil], rfl, ?_, fun hne => hne⟩
      exact Nat.le_trans hfuel (Nat.zero_le _)
  | succ fuel ih =>
      unfold Blake2s.takeBlocks
      split
      · rename_i hlong
        have htake : (p.take kBlockLen).length = kBlockLen := by
          rw [List.length_take]
          omega
        have hdrop : (p.drop kBlockLen).length = p.length - kBlockLen := List.length_drop
        have hpos : 0 < kBlockLen := Nat.zero_lt_succ _
        have hnext := hs.takeBlock htake (by rw [Nat.add_mul, Nat.one_mul]; omega)
        have hrest : (full ++ [p.take kBlockLen]).length * kBlockLen +
            (p.drop kBlockLen).length < 2 ^ 64 := by
          rw [List.length_append, List.length_singleton, Nat.add_mul, Nat.one_mul]
          omega
        obtain ⟨more, hmore, htext, hle, hne⟩ := ih hnext (by omega) hrest
        refine ⟨p.take kBlockLen :: more, ?_, ?_, hle, ?_⟩
        · rwa [List.append_assoc] at hmore
        · rw [List.flatten_cons, List.append_assoc, htext, List.take_append_drop]
        · intro _
          apply hne
          rw [ne_eq, ← List.length_eq_zero_iff]
          omega
      · rename_i hshort
        exact ⟨[], by rwa [List.append_nil], rfl, Nat.le_of_not_lt hshort, fun hne => hne⟩

/-- Input that fits behind what is held. -/
theorem Holds.keep (hs : Holds h outLen s full held) {p : Bytes}
    (hfit : held.length + p.length ≤ kBlockLen) :
    Holds h outLen (s.keep p) full (held ++ p) where
  size := hs.size
  words := hs.words
  counter := hs.counter
  bufSize := by
    have hroom : s.bufLen + p.length ≤ s.buf.length := by
      rw [hs.bufLen, hs.bufSize]
      exact hfit
    exact (length_copyAt hroom).trans hs.bufSize
  bufLen := by
    rw [List.length_append, ← hs.bufLen]
    rfl
  buf := by
    have hle : s.bufLen ≤ s.buf.length := by
      rw [hs.bufLen, hs.bufSize]
      exact hs.le
    have htake := take_copyAt hle p
    rw [hs.buf] at htake
    exact htake
  le := by
    rw [List.length_append]
    exact hfit
  outLen := hs.outLen
  unfinished := hs.unfinished

/-- A filled buffer is what was held and the front of the input. -/
theorem Holds.filled (hs : Holds h outLen s full held) {input : Bytes}
    (hover : kBlockLen < held.length + input.length) :
    (s.filled input).length = kBlockLen ∧
      s.filled input = held ++ input.take (kBlockLen - held.length) := by
  have hle := hs.le
  have hfront : (input.take (kBlockLen - s.bufLen)).length = kBlockLen - held.length := by
    rw [List.length_take, hs.bufLen]
    omega
  have hfit : s.bufLen + (input.take (kBlockLen - s.bufLen)).length = s.buf.length := by
    rw [hfront, hs.bufLen, hs.bufSize]
    omega
  have hsize : (s.filled input).length = kBlockLen := by
    rw [Blake2s.filled, length_copyAt (Nat.le_of_eq hfit), hs.bufSize]
  refine ⟨hsize, ?_⟩
  calc s.filled input
      = (s.filled input).take (s.bufLen + (input.take (kBlockLen - s.bufLen)).length) := by
        rw [hfit, hs.bufSize, List.take_of_length_le (Nat.le_of_eq hsize)]
    _ = s.buf.take s.bufLen ++ input.take (kBlockLen - s.bufLen) :=
        take_copyAt (Nat.le.intro hfit) _
    _ = held ++ input.take (kBlockLen - held.length) := by rw [hs.buf, hs.bufLen]

/-- The branch for a full buffer: the held bytes and the front of the input are
a block, the loop takes the whole blocks behind it, and the rest is held. -/
theorem Holds.flush (hs : Holds h outLen s full held) {input : Bytes}
    (hover : kBlockLen < held.length + input.length)
    (hroom : full.length * kBlockLen + held.length + input.length < 2 ^ 64) :
    ∃ full' held', Holds h outLen (Blake2s.keep (s.flush input).1 (s.flush input).2) full' held' ∧
      held' ≠ [] ∧ full'.flatten ++ held' = full.flatten ++ held ++ input := by
  have hle := hs.le
  obtain ⟨hsize, hfilled⟩ := hs.filled hover
  have hempty : Holds h outLen { s with buf := s.filled input, bufLen := 0 } full [] :=
    { hs with bufSize := hsize, bufLen := rfl, buf := rfl, le := Nat.zero_le _ }
  have hfirst := hempty.takeBlock hsize (by rw [Nat.add_mul, Nat.one_mul]; omega)
  have hrestLen : (input.drop (kBlockLen - s.bufLen)).length =
      input.length - (kBlockLen - held.length) := by
    rw [List.length_drop, hs.bufLen]
  have hrest : (full ++ [s.filled input]).length * kBlockLen +
      (input.drop (kBlockLen - s.bufLen)).length < 2 ^ 64 := by
    rw [List.length_append, List.length_singleton, Nat.add_mul, Nat.one_mul, hrestLen]
    omega
  obtain ⟨more, hmore, htext, hlast, hne⟩ :=
    hfirst.takeBlocks input.length (p := input.drop (kBlockLen - s.bufLen)) (by omega) hrest
  refine ⟨full ++ [s.filled input] ++ more, (s.flush input).2, ?_, ?_, ?_⟩
  · have hkept := hmore.keep (p := (s.flush input).2) (by rw [List.length_nil, Nat.zero_add]; exact hlast)
    rwa [List.nil_append] at hkept
  · apply hne
    rw [ne_eq, ← List.length_eq_zero_iff]
    omega
  · have htail : more.flatten ++ (s.flush input).2 = input.drop (kBlockLen - held.length) := by
      rw [← hs.bufLen]
      exact htext
    rw [List.flatten_append, List.flatten_append, List.flatten_singleton, hfilled,
      List.append_assoc, htail]
    simp only [List.append_assoc, List.take_append_drop]

/-- A block is held back once one was compressed. -/
structure Streams (h : HashWords) (outLen : Nat) (s : Blake2s) (full : List Bytes)
    (held : Bytes) : Prop extends Holds h outLen s full held where
  back : full ≠ [] → held ≠ []

/-- `update` appends to what was fed, and never compresses the last block. -/
theorem Streams.update (hs : Streams h outLen s full held) {input : Bytes}
    (hroom : full.length * kBlockLen + held.length + input.length < 2 ^ 64) :
    ∃ full' held', Streams h outLen (s.update input) full' held' ∧
      full'.flatten ++ held' = full.flatten ++ held ++ input := by
  have hsize : addSize s.bufLen input.length = held.length + input.length := by
    rw [addSize, hs.bufLen]
    exact Nat.mod_eq_of_lt (by omega)
  unfold Blake2s.update
  split
  · rename_i hempty
    refine ⟨full, held, hs, ?_⟩
    rw [List.isEmpty_iff.mp hempty, List.append_nil]
  rw [hsize]
  split
  · rename_i hover
    obtain ⟨full', held', hnext, hne, htext⟩ := hs.flush hover hroom
    exact ⟨full', held', ⟨hnext, fun _ => hne⟩, htext⟩
  · rename_i hfit
    refine ⟨full, held ++ input, ⟨hs.keep (Nat.le_of_not_lt hfit), ?_⟩, ?_⟩
    · intro hfull hnil
      exact hs.back hfull (List.append_eq_nil_iff.mp hnil).1
    · rw [List.append_assoc]

/-- Every sequence of updates. -/
theorem Streams.run (hs : Streams h outLen s full held) (chunks : List Bytes)
    (hroom : (full.flatten ++ held ++ chunks.flatten).length < 2 ^ 64) :
    ∃ full' held', Streams h outLen (Foundation.run Blake2s.update s chunks) full' held' ∧
      full'.flatten ++ held' = full.flatten ++ held ++ chunks.flatten := by
  induction chunks generalizing s full held with
  | nil => exact ⟨full, held, hs, (List.append_nil _).symm⟩
  | cons chunk chunks ih =>
      have hlen := length_flatten_full hs.size
      have hone : full.length * kBlockLen + held.length + chunk.length < 2 ^ 64 := by
        simp only [List.flatten_cons, List.length_append] at hroom
        omega
      obtain ⟨full', held', hnext, htext⟩ := hs.update hone
      have hall : full'.flatten ++ held' ++ chunks.flatten =
          full.flatten ++ held ++ (chunk :: chunks).flatten := by
        rw [htext, List.flatten_cons, List.append_assoc, List.append_assoc]
      obtain ⟨full'', held'', hlast, htext'⟩ := ih hnext (by rw [hall]; exact hroom)
      exact ⟨full'', held'', hlast, htext'.trans hall⟩

/-- The bytes of the key block. -/
def keyBlock (key : Bytes) : Bytes := if key.isEmpty then [] else zeroPad kBlockLen key

theorem length_keyBlock_le {key : Bytes} (hkey : key.length ≤ kBlockLen) :
    (keyBlock key).length ≤ kBlockLen := by
  unfold keyBlock
  split
  · exact Nat.zero_le _
  · rw [length_zeroPad hkey]

theorem keyBlock_append_eq_nil {key msg : Bytes} (hkey : key.length ≤ kBlockLen)
    (hnil : keyBlock key ++ msg = []) : key = [] ∧ msg = [] := by
  obtain ⟨hblock, hmsg⟩ := List.append_eq_nil_iff.mp hnil
  refine ⟨?_, hmsg⟩
  by_contra hne
  rw [keyBlock, if_neg (fun hempty => hne (List.isEmpty_iff.mp hempty))] at hblock
  have hlen := length_zeroPad hkey
  rw [hblock] at hlen
  cases hlen

/-- A new hash has been fed the key block. -/
theorem streams_create {key : Bytes} (hkey : key.length ≤ kBlockLen) (outLen : Nat) :
    ∃ full held, Streams (initialWords key.length outLen) outLen (create key outLen) full held ∧
      full.flatten ++ held = keyBlock key := by
  have hinit : Streams (initialWords key.length outLen) outLen
      { h := initialWords key.length outLen, outLen := outLen } [] [] :=
    ⟨holds_init _ _, fun hne => absurd rfl hne⟩
  unfold create keyBlock
  split
  · exact ⟨[], [], hinit, rfl⟩
  · have hcopy : (copyInto kBlockLen key).toList = zeroPad kBlockLen key := by
      simp [copyInto, zeroPad, List.take_of_length_le hkey]
    have hroom : ([] : List Bytes).length * kBlockLen + ([] : Bytes).length +
        (zeroPad kBlockLen key).length < 2 ^ 64 := by
      rw [length_zeroPad hkey]
      decide
    rw [hcopy]
    exact hinit.update hroom

/-! ## The digest

`finish` compresses the block that was kept back, and that is the last one of
the message. -/

/-- What `finish` writes. -/
theorem Holds.finish (hs : Holds h outLen s full held) (hout : outLen ≤ kHashLen)
    (hroom : (full.flatten ++ held).length < 2 ^ 64) (out : Bytes) :
    (s.finish out).2 =
      (((rfcF (absorbed h full) (zeroPad kBlockLen held) (full.flatten ++ held).length
        true).toList.flatMap store32Le).take outLen).take out.length ++ out.drop outLen := by
  have hlen := length_flatten_full hs.size
  have hcount : (s.counter + UInt64.ofNat s.bufLen).toNat = (full.flatten ++ held).length := by
    rw [List.length_append, hlen] at hroom ⊢
    have hheld : held.length < UInt64.size := Nat.lt_of_le_of_lt hs.le (by decide)
    rw [UInt64.toNat_add, hs.counter, hs.bufLen, UInt64.toNat_ofNat_of_lt' hheld]
    exact Nat.mod_eq_of_lt hroom
  have hlast : copyAt s.buf s.bufLen (List.replicate (kBlockLen - s.bufLen) 0) =
      zeroPad kBlockLen held := by
    have hle := hs.le
    rw [copyAt, hs.buf, hs.bufLen, List.length_replicate, List.drop_of_length_le, List.append_nil,
      zeroPad]
    rw [hs.bufSize]
    omega
  have hn : (if out.length < s.outLen then out.length else s.outLen) = min out.length outLen := by
    rw [hs.outLen]
    split <;> omega
  -- the digest is longer than what is asked for, so `n` bytes are written
  have hwide : ∀ w : HashWords, (w.toList.flatMap store32Le).length = kHashLen := by
    intro w
    rw [length_flatMap_store32Le, Vector.length_toList]
    rfl
  unfold Blake2s.finish
  rw [hs.unfinished, if_neg Bool.false_ne_true]
  simp only [compress_h, hcount, hlast, hs.words]
  change copyAt out 0 (List.take (if out.length < s.outLen then out.length else s.outLen) _) = _
  rw [hn, copyAt_zero, List.length_take, hwide, List.take_take]
  refine congrArg₂ (· ++ ·) rfl ?_
  rw [Nat.min_eq_left (by omega)]
  rcases Nat.le_total out.length outLen with hshort | hlong
  · rw [Nat.min_eq_left hshort, List.drop_of_length_le (Nat.le_refl _), List.drop_of_length_le hshort]
  · rw [Nat.min_eq_right hlong]

end Blake2s

theorem zeroPad_full {b : Bytes} (hb : b.length = kBlockLen) : zeroPad kBlockLen b = b := by
  rw [zeroPad, hb, Nat.sub_self, List.replicate_zero, List.append_nil]

/-- Without data there is one block of zeros. -/
theorem dataBlocks_nil : dataBlocks [] [] = [zeroPad kBlockLen []] := by
  have hpos : 0 < kBlockLen := Nat.zero_lt_succ _
  rw [dataBlocks, blocks_nil hpos]
  rfl

/-- With data they are the key block and the message, cut and padded together. -/
theorem dataBlocks_eq {key msg : Bytes} (hkey : key.length ≤ kBlockLen) {full : List Bytes}
    {held : Bytes} (hfull : ∀ b ∈ full, b.length = kBlockLen) (hne : held ≠ [])
    (hle : held.length ≤ kBlockLen) (hdata : full.flatten ++ held = Blake2s.keyBlock key ++ msg) :
    dataBlocks key msg = full ++ [zeroPad kBlockLen held] := by
  have hpos : 0 < kBlockLen := Nat.zero_lt_succ _
  have hpad : (full ++ [held]).map (zeroPad kBlockLen) = full ++ [zeroPad kBlockLen held] := by
    rw [List.map_append, List.map_congr_left fun b hb => zeroPad_full (hfull b hb)]
    simp
  have hcut := blocks_flatten_append hpos hfull hne hle
  rw [hdata] at hcut
  have hall : (if key.isEmpty then [] else [zeroPad kBlockLen key]) ++
      (blocks kBlockLen msg).map (zeroPad kBlockLen) = full ++ [zeroPad kBlockLen held] := by
    rw [← hpad, ← hcut]
    unfold Blake2s.keyBlock
    split
    · rw [List.nil_append, List.nil_append]
    · have hsize := length_zeroPad hkey
      rw [blocks_append hpos hsize, List.map_cons, zeroPad_full hsize]
      rfl
  rw [dataBlocks, hall, if_neg]
  simp

/-- The counter of the last block. -/
theorem length_data {key : Bytes} (hkey : key.length ≤ kBlockLen) (msg : Bytes) :
    (Blake2s.keyBlock key ++ msg).length =
      if key.isEmpty then msg.length else msg.length + kBlockLen := by
  unfold Blake2s.keyBlock
  split
  · rfl
  · rw [List.length_append, length_zeroPad hkey, Nat.add_comm]

/-- Every split of a message leaves a hash that has been fed the key block and
the message. -/
theorem Blake2s.streams_run {key : Bytes} (hkey : key.length ≤ kBlockLen) (outLen : Nat)
    {chunks : List Bytes} (hmsg : chunks.flatten.length < 2 ^ 64 - kBlockLen) :
    ∃ full held, Streams (initialWords key.length outLen) outLen
        (run Blake2s.update (Blake2s.create key outLen) chunks) full held ∧
      full.flatten ++ held = keyBlock key ++ chunks.flatten := by
  have hblock := length_keyBlock_le hkey
  obtain ⟨full₀, held₀, hstart, hdata⟩ := streams_create hkey outLen
  have hroom : (full₀.flatten ++ held₀ ++ chunks.flatten).length < 2 ^ 64 := by
    rw [hdata, List.length_append]
    omega
  rw [← hdata]
  exact hstart.run chunks hroom

/-- A hash that has been fed the key block and `msg` writes the digest of `msg`. -/
theorem Blake2s.Streams.digest {key msg : Bytes} {outLen : Nat} {s : Blake2s} {full : List Bytes}
    {held : Bytes} (hs : Streams (initialWords key.length outLen) outLen s full held)
    (hkey : key.length ≤ kBlockLen) (hout : outLen ≤ kHashLen)
    (hmsg : msg.length < 2 ^ 64 - kBlockLen) (hdata : full.flatten ++ held = keyBlock key ++ msg)
    (out : Bytes) :
    (s.finish out).2 = (rfcDigest key outLen msg).take out.length ++ out.drop outLen := by
  have hblock := length_keyBlock_le hkey
  have hlen : (full.flatten ++ held).length < 2 ^ 64 := by
    rw [hdata, List.length_append]
    omega
  rw [hs.finish hout hlen, hdata, length_data hkey, rfcDigest]
  -- what is held is the last block, unless nothing was fed at all
  by_cases hheld : held = []
  · have hnone : full = [] := by
      by_contra hfull
      exact hs.back hfull hheld
    rw [hheld, hnone] at hdata
    obtain ⟨rfl, rfl⟩ := keyBlock_append_eq_nil hkey hdata.symm
    rw [dataBlocks_nil, hheld, hnone]
    rfl
  · rw [dataBlocks_eq hkey hs.size hheld hs.le hdata]
    simp

namespace Blake2s

/-- `Hash finish()`, of a hash that was made for 32 bytes. -/
def finishHash (s : Blake2s) : Hash := copyInto kHashLen (s.finish (List.replicate kHashLen 0)).2

/-- `Blake2s::mac`, whose key may have up to 32 bytes. -/
def mac (key msg : Bytes) : Hash := ((create key kHashLen).update msg).finishHash

/-- `Blake2s::hash`. -/
def hash (input : Bytes) : Hash := ((create [] kHashLen).update input).finishHash

theorem length_rfcDigest (key msg : Bytes) : (rfcDigest key kHashLen msg).length = kHashLen := by
  rw [rfcDigest, List.length_take, length_flatMap_store32Le, Vector.length_toList]
  rfl

/-- The one-shot calls give the digest; without a key `mac` is `hash`. -/
theorem toList_mac {key msg : Bytes} (hkey : key.length ≤ kBlockLen)
    (hmsg : msg.length < 2 ^ 64 - kBlockLen) : (mac key msg).toList = rfcDigest key kHashLen msg := by
  have hone : [msg].flatten = msg := by rw [List.flatten_singleton]
  obtain ⟨full, held, hs, hdata⟩ := @streams_run key hkey kHashLen [msg] (by rwa [hone])
  rw [hone] at hdata
  have hdigest := hs.digest hkey (Nat.le_refl _) hmsg hdata (List.replicate kHashLen 0)
  have hsize := length_rfcDigest key msg
  rw [List.length_replicate, List.take_of_length_le (Nat.le_of_eq hsize),
    List.drop_of_length_le (Nat.le_of_eq List.length_replicate), List.append_nil] at hdigest
  unfold mac finishHash
  rw [run_cons, run_nil] at hdigest
  rw [hdigest]
  exact toList_copyInto hsize

theorem hash_eq_mac (input : Bytes) : hash input = mac [] input := rfl

-- RFC 7693, appendix B
example : (hash (ascii "abc")).toList =
    [0x50, 0x8C, 0x5E, 0x8C, 0x32, 0x7C, 0x14, 0xE2, 0xE1, 0xA7, 0x2B, 0xA3, 0x4E, 0xEB, 0x45, 0x2F,
     0x37, 0x45, 0x8B, 0x20, 0x9E, 0xD6, 0x3A, 0x29, 0x4D, 0x99, 0x9B, 0x4C, 0x86, 0x67, 0x59, 0x82] :=
  by decide +kernel

end Blake2s

end UConnect.Crypto
