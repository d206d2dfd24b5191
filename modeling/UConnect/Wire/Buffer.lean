/-
  Wire/Buffer.lean --- the bounds-checked cursor of the codecs.

  Source: src/wire/buffer.hpp.

  The failure model is a sticky flag.  A read past the end yields zero and
  latches the flag, a write past the end is dropped and latches it, and callers
  test the flag once at the end.  `Writer` carries its capacity and what it has
  written, `Reader` what is left to read.
-/
import UConnect.Foundation.Bytes

set_option autoImplicit false

namespace UConnect.Wire

open UConnect.Foundation

/-! ## Writer

A write that does not fit writes nothing at all, and nothing is written after
it. -/

/-- `Writer` over a buffer of `capacity` bytes. -/
structure Writer where
  capacity : Nat
  written : Bytes := []
  ok : Bool := true
  deriving DecidableEq

namespace Writer

/-- `bytes`; the fixed-width writers are this on their big-endian bytes. -/
def bytes (w : Writer) (bs : Bytes) : Writer :=
  if w.ok && w.written.length + bs.length ≤ w.capacity then
    { w with written := w.written ++ bs }
  else { w with ok := false }

/-- `u8`, one byte. -/
def u8 (w : Writer) (v : UInt8) : Writer := w.bytes [v]
/-- `u16`, two bytes, the more significant first; a larger number is cut, as the
cast cuts it. -/
def u16 (w : Writer) (v : Nat) : Writer := w.bytes (beBytes 2 v)
/-- `u32`, four bytes in the same order. -/
def u32 (w : Writer) (v : Nat) : Writer := w.bytes (beBytes 4 v)
/-- `u64`, eight bytes in the same order. -/
def u64 (w : Writer) (v : Nat) : Writer := w.bytes (beBytes 8 v)

/-- A writer that is still good had room for everything. -/
theorem bytes_ok {w : Writer} {bs : Bytes} (h : (w.bytes bs).ok = true) :
    w.ok = true ∧ (w.bytes bs).written = w.written ++ bs := by
  unfold bytes at h ⊢
  split
  · rename_i hroom
    exact ⟨(Bool.and_eq_true_iff.mp hroom).1, rfl⟩
  · rename_i hroom
    rw [if_neg hroom] at h
    cases h

/-- With room, a write appends. -/
theorem bytes_of_room {w : Writer} {bs : Bytes} (hok : w.ok = true)
    (hroom : w.written.length + bs.length ≤ w.capacity) :
    w.bytes bs = { w with written := w.written ++ bs } := by
  unfold bytes
  rw [hok, Bool.true_and, if_pos (by simpa using hroom)]

end Writer

/-! ## Reader

A read that does not fit takes nothing and latches the flag; every later read is
then a zero. -/

/-- `Reader`: what is left of its buffer. -/
structure Reader where
  rest : Bytes
  ok : Bool := true
  deriving DecidableEq

namespace Reader

/-- `bytes`: the next `n`, or nothing and a latched flag. -/
def bytes (r : Reader) (n : Nat) : Bytes × Reader :=
  if r.ok && n ≤ r.rest.length then (r.rest.take n, { r with rest := r.rest.drop n })
  else ([], { r with ok := false })

/-- A fixed-width read; zero past the end. -/
def uint (r : Reader) (n : Nat) : Nat × Reader :=
  let (bs, r) := r.bytes n
  (beVal bs, r)

/-- `u8`, one byte, or 0 past the end. -/
def u8 (r : Reader) : UInt8 × Reader :=
  let (v, r) := r.uint 1
  (UInt8.ofNat v, r)

/-- `u16`, two bytes, the more significant first, or 0 past the end. -/
def u16 (r : Reader) : Nat × Reader := r.uint 2
/-- `u32`, four bytes in the same order, or 0. -/
def u32 (r : Reader) : Nat × Reader := r.uint 4
/-- `u64`, eight bytes in the same order, or 0. -/
def u64 (r : Reader) : Nat × Reader := r.uint 8

/-- `remaining`: the bytes that could still be read; none once the flag has
latched. -/
def remaining (r : Reader) : Nat := if r.ok then r.rest.length else 0

/-- Reading takes from the front. -/
theorem bytes_append (bs rest : Bytes) :
    ({ rest := bs ++ rest } : Reader).bytes bs.length = (bs, { rest := rest }) := by
  simp [bytes]

theorem uint_append {n v : Nat} (h : v < 256 ^ n) (rest : Bytes) :
    ({ rest := beBytes n v ++ rest } : Reader).uint n = (v, { rest := rest }) := by
  have hb := bytes_append (beBytes n v) rest
  rw [length_beBytes] at hb
  rw [uint, hb]
  exact Prod.ext (beVal_beBytes_of_lt h) rfl

theorem u8_cons (v : UInt8) (rest : Bytes) :
    ({ rest := v :: rest } : Reader).u8 = (v, { rest := rest }) := by
  have hb := bytes_append [v] rest
  rw [List.length_singleton, List.singleton_append] at hb
  rw [u8, uint, hb]
  simp [beVal]

/-- The rest of a good reader can always be taken. -/
theorem bytes_remaining (rest : Bytes) :
    ({ rest := rest } : Reader).bytes ({ rest := rest } : Reader).remaining =
      (rest, { rest := [] }) := by
  simp [bytes, remaining]

end Reader

end UConnect.Wire
