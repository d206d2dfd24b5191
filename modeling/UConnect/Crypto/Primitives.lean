/-
  Crypto/Primitives.lean --- the primitives the protocol is built from.

  Source: src/crypto/primitives.hpp, and the HMAC and HKDF constructions of
  src/crypto/random.cpp.

  The AEAD, BLAKE2s and X25519 are parameters: a `Primitives` value carries one
  function for each.  What the protocol relies on is stated separately, as
  `Aead.Lawful`, so that every result says which of it it uses.  HMAC and the
  two HKDFs are not parameters; they are the code's own constructions over
  BLAKE2s.
-/
import UConnect.Foundation.Bytes

set_option autoImplicit false

namespace UConnect.Crypto

open UConnect.Foundation

/-- `kHashLen`, the bytes of a digest. -/
def kHashLen : Nat := 32
/-- `kBlockLen`, the bytes of a block, to which HMAC pads its key. -/
def kBlockLen : Nat := 64
/-- `kDhLen`, the bytes of a public key. -/
def kDhLen : Nat := 32
/-- `kTagLen`, what sealing adds. -/
def kTagLen : Nat := 16
/-- `kKeyLen`, the bytes of a key of the AEAD. -/
def kKeyLen : Nat := 32

/-- A BLAKE2s-256 digest. -/
abbrev Hash := Vector UInt8 32
/-- A symmetric key. -/
abbrev SymKey := Vector UInt8 32
/-- An X25519 public key. -/
abbrev PublicKey := Vector UInt8 32
/-- An X25519 secret key. -/
abbrev SecretKey := Vector UInt8 32

/-- `memcpy` of the front of a buffer into a zeroed array. -/
def copyInto (n : Nat) (bs : Bytes) : Vector UInt8 n :=
  ⟨(bs.take n ++ List.replicate (n - bs.length) 0).toArray, by
    rw [List.size_toArray, List.length_append, List.length_take, List.length_replicate]
    omega⟩

/-- Copying as many bytes as the array holds loses nothing. -/
theorem toList_copyInto {n : Nat} {bs : Bytes} (h : bs.length = n) :
    (copyInto n bs).toList = bs := by
  simp [copyInto, ← h]

theorem copyInto_toList {n : Nat} (v : Vector UInt8 n) : copyInto n v.toList = v := by
  apply Vector.toList_inj.mp
  exact toList_copyInto v.length_toList

/-- The bytes of an ASCII string literal. -/
def ascii (s : String) : Bytes :=
  s.toList.map fun c => UInt8.ofNat c.toNat

/-- ChaCha20-Poly1305 as the protocol uses it: a 64-bit nonce, associated data,
and a ciphertext that ends in the tag. -/
structure Aead where
  /-- `aead_encrypt`. -/
  encrypt : SymKey → Nat → Bytes → Bytes → Bytes
  /-- `aead_decrypt`; `none` is a tag that does not verify. -/
  decrypt : SymKey → Nat → Bytes → Bytes → Option Bytes

/-- What an AEAD does for those who hold the key. -/
structure Aead.Lawful (A : Aead) : Prop where
  /-- A ciphertext is its plaintext's length and a tag. -/
  length_encrypt : ∀ k n ad p, (A.encrypt k n ad p).length = p.length + kTagLen
  /-- Decryption undoes encryption. -/
  decrypt_encrypt : ∀ k n ad p, A.decrypt k n ad (A.encrypt k n ad p) = some p

/-- The primitives. -/
structure Primitives where
  /-- ChaCha20-Poly1305. -/
  aead : Aead
  /-- `Blake2s::hash`. -/
  hash : Bytes → Hash
  /-- `Blake2s::mac`. -/
  mac : Bytes → Bytes → Hash
  /-- `KeyPair::from_secret`: the public key of a secret one. -/
  publicOf : SecretKey → PublicKey
  /-- `x25519`; `none` is the all-zero result it refuses. -/
  x25519 : SecretKey → PublicKey → Option PublicKey

variable (P : Primitives)

/-! ## HMAC and HKDF

The constructions of the source over whatever hash a `Primitives` carries. -/

/-- `hmac_blake2s`: RFC 2104 over BLAKE2s, not the keyed mode the hash has
itself. -/
def hmacBlake2s (key msg : Bytes) : Hash :=
  let key := if key.length > kBlockLen then (P.hash key).toList else key
  let kBlock := (copyInto kBlockLen key).toList
  let ipad := kBlock.map (· ^^^ 0x36)
  let opad := kBlock.map (· ^^^ 0x5C)
  P.hash (opad ++ (P.hash (ipad ++ msg)).toList)

/-- `hkdf2`: the two outputs Noise chains from a chaining key. -/
def hkdf2 (chainingKey ikm : Bytes) : Hash × Hash :=
  let tempKey := (hmacBlake2s P chainingKey ikm).toList
  let out1 := hmacBlake2s P tempKey [0x01]
  let out2 := hmacBlake2s P tempKey (out1.toList ++ [0x02])
  (out1, out2)

/-- `hkdf3`: the three outputs Noise chains from a chaining key. -/
def hkdf3 (chainingKey ikm : Bytes) : Hash × Hash × Hash :=
  let tempKey := (hmacBlake2s P chainingKey ikm).toList
  let out1 := hmacBlake2s P tempKey [0x01]
  let out2 := hmacBlake2s P tempKey (out1.toList ++ [0x02])
  let out3 := hmacBlake2s P tempKey (out2.toList ++ [0x03])
  (out1, out2, out3)

/-- The expansion loop of `hkdf`: `left` bytes are still wanted, `t` is the
previous block. -/
def hkdfExpand (prk info : Bytes) : Nat → Nat → Bytes → UInt8 → Bytes
  | 0, _, _, _ => []
  | fuel + 1, left, t, counter =>
      if left = 0 then []
      else
        let block := (hmacBlake2s P prk (t ++ info ++ [counter])).toList
        let n := min left kHashLen
        block.take n ++ hkdfExpand prk info fuel (left - n) block (counter + 1)

/-- `hkdf` (RFC 5869): `len` bytes under `info`. -/
def hkdf (ikm salt info : Bytes) (len : Nat) : Bytes :=
  let prk := (hmacBlake2s P salt ikm).toList
  hkdfExpand P prk info len len [] 1

theorem length_hkdfExpand_le (prk info : Bytes) (fuel left : Nat) (t : Bytes) (counter : UInt8) :
    (hkdfExpand P prk info fuel left t counter).length ≤ left := by
  induction fuel generalizing left t counter with
  | zero => exact Nat.zero_le _
  | succ fuel ih =>
      unfold hkdfExpand
      split
      · exact Nat.zero_le _
      · simp only [List.length_append, List.length_take]
        have hrest := ih (left - min left kHashLen)
          (hmacBlake2s P prk (t ++ info ++ [counter])).toList (counter + 1)
        omega

/-! ## A small instance

Checksums in place of the real primitives: lawful, with a Diffie-Hellman that
commutes, and cheap enough to evaluate the model with. -/

/-- A polynomial checksum of some 127 bits. -/
def checksum (bs : Bytes) : Nat :=
  bs.foldl (fun h b => (h * 309485009821345068724781371 + b.toNat + 1) %
    170141183460469231731687303715884105727) 1469598103934665603

/-- The tag of the checksum AEAD. -/
def checksumTag (k : SymKey) (n : Nat) (ad p : Bytes) : Bytes :=
  beBytes 8 (checksum (k.toList ++ beBytes 8 n ++ ad)) ++ beBytes 8 (checksum (p ++ k.toList))

/-- Plaintext followed by its tag. -/
def Aead.checksum : Aead where
  encrypt k n ad p := p ++ checksumTag k n ad p
  decrypt k n ad c :=
    let p := c.take (c.length - kTagLen)
    if c = p ++ checksumTag k n ad p then some p else none

theorem Aead.checksum_lawful : Aead.checksum.Lawful where
  length_encrypt k n ad p := by
    simp [Aead.checksum, checksumTag, length_beBytes, kTagLen]
  decrypt_encrypt k n ad p := by
    have hlen : (checksumTag k n ad p).length = kTagLen := by
      simp [checksumTag, length_beBytes, kTagLen]
    simp [Aead.checksum, hlen]

/-- The checksum primitives. -/
def Primitives.checksum : Primitives where
  aead := Aead.checksum
  hash bs := copyInto 32 (beBytes 16 (Crypto.checksum bs))
  mac key bs := copyInto 32 (beBytes 16 (Crypto.checksum (key ++ bs)))
  publicOf s := s
  x25519 s p := some (Vector.zipWith (· ^^^ ·) s p)

end UConnect.Crypto
