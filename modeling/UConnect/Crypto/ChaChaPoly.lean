/-
  Crypto/ChaChaPoly.lean --- AEAD_CHACHA20_POLY1305.

  Source: src/crypto/aead.cpp and `ct_equal` in src/crypto/random.cpp.

  Poly1305 is any function of a 32-byte key and a message: nothing here rests on
  the MAC being hard to forge.  What is proved is the construction around it.
  Its last theorem puts the construction under the AEAD the rest of the
  development assumes.

  A buffer the source writes to is passed and returned.  The spans of a call may
  be the same memory or disjoint; the bytes are the same either way, since every
  byte is read before it is written.
-/
import UConnect.Crypto.Primitives
import UConnect.Foundation.Buffers

set_option autoImplicit false

namespace UConnect.Crypto

open UConnect.Foundation

/-- A 96-bit nonce. -/
abbrev Nonce12 := Vector UInt8 12

/-- `Tag`, what is behind the ciphertext. -/
abbrev Tag := Vector UInt8 16

/-- The one-time MAC: `uconnect_poly1305_init`, the updates joined, `finish`. -/
abbrev OneTimeMac := Bytes → Bytes → Tag

/-! ## ChaCha20

The block function and the stream, over 32-bit words that wrap. -/

/-- `rotl32`; the source is never called with 0 or 32. -/
def rotl32 (x : UInt32) (n : UInt32) : UInt32 := (x <<< n) ||| (x >>> (32 - n))

/-- The quarter round `qr` on the words `a`, `b`, `c` and `d`. -/
def qr (x : List UInt32) (a b c d : Nat) : List UInt32 :=
  let x := x.set a (x.getD a 0 + x.getD b 0)
  let x := x.set d (rotl32 (x.getD d 0 ^^^ x.getD a 0) 16)
  let x := x.set c (x.getD c 0 + x.getD d 0)
  let x := x.set b (rotl32 (x.getD b 0 ^^^ x.getD c 0) 12)
  let x := x.set a (x.getD a 0 + x.getD b 0)
  let x := x.set d (rotl32 (x.getD d 0 ^^^ x.getD a 0) 8)
  let x := x.set c (x.getD c 0 + x.getD d 0)
  x.set b (rotl32 (x.getD b 0 ^^^ x.getD c 0) 7)

/-- Which words the eight quarter rounds of a double round take: columns, then
diagonals. -/
def quarterRounds : List (Nat × Nat × Nat × Nat) :=
  [(0, 4, 8, 12), (1, 5, 9, 13), (2, 6, 10, 14), (3, 7, 11, 15),
   (0, 5, 10, 15), (1, 6, 11, 12), (2, 7, 8, 13), (3, 4, 9, 14)]

/-- One column/diagonal pair. -/
def doubleRound (x : List UInt32) : List UInt32 :=
  quarterRounds.foldl (fun x q => qr x q.1 q.2.1 q.2.2.1 q.2.2.2) x

/-- The state a block starts from: constants, key, counter and nonce. -/
def chacha20Init (key : SymKey) (counter : UInt32) (nonce : Nonce12) : List UInt32 :=
  [0x61707865, 0x3320646E, 0x79622D32, 0x6B206574] ++
    (List.range 8).map (fun i => load32Le key.toList (i * 4)) ++ [counter] ++
    (List.range 3).map (fun i => load32Le nonce.toList (i * 4))

/-- `chacha20_block`: ten double rounds, and the words they started from added
back. -/
def chacha20Block (key : SymKey) (counter : UInt32) (nonce : Nonce12) : Bytes :=
  let s := chacha20Init key counter nonce
  let x := Nat.iterate doubleRound 10 s
  (List.zipWith (· + ·) x s).flatMap store32Le

/-- `chacha20_xor`; the 32-bit counter wraps. -/
def chacha20Xor (key : SymKey) (counter : UInt32) (nonce : Nonce12) (input : Bytes) : Bytes :=
  xorStream (fun counter => chacha20Block key counter nonce) (· + 1) 64 input.length counter input

/-! ## The tag

The authenticator over the additional data, the ciphertext and both lengths,
each padded. -/

/-- The zeros after a part of the MAC's input. -/
def pad16 (len : Nat) : Bytes := if len % 16 ≠ 0 then List.replicate (16 - len % 16) 0 else []

/-- Everything `poly1305_tag` hands to the MAC, in order. -/
def macInput (ad ct : Bytes) : Bytes :=
  ad ++ pad16 ad.length ++ (ct ++ pad16 ct.length) ++
    (store64Le (UInt64.ofNat ad.length) ++ store64Le (UInt64.ofNat ct.length))

/-- `ct_equal`: every byte is looked at, whatever the first ones say. -/
def ctEqual (a b : Bytes) : Bool :=
  if a.length ≠ b.length then false
  else (List.zipWith (· ^^^ ·) a b).foldl (fun diff d => diff ||| d) 0 == 0

variable (mac : OneTimeMac)

/-- `poly1305_tag`: the first half of block 0 is the MAC's key. -/
def poly1305Tag (key : SymKey) (nonce : Nonce12) (ad ct : Bytes) : Tag :=
  mac ((chacha20Block key 0 nonce).take 32) (macInput ad ct)

/-! ## Encryption and decryption

The spans of the source are buffers here, so that it shows what is written when
a call fails. -/

/-- `aead_encrypt_n12` into `out`. -/
def aeadEncryptN12 (key : SymKey) (nonce : Nonce12) (ad plaintext out : Bytes) : Bytes :=
  let out := copyAt out 0 (chacha20Xor key 1 nonce plaintext)
  let tag := poly1305Tag mac key nonce ad (out.take plaintext.length)
  copyAt out plaintext.length tag.toList

/-- `aead_decrypt_n12` into `out`: whether the tag verified, and the buffer
after it. -/
def aeadDecryptN12 (key : SymKey) (nonce : Nonce12) (ad ciphertext out : Bytes) : Bool × Bytes :=
  if ciphertext.length < kTagLen then (false, out)
  else
    let ptLen := ciphertext.length - kTagLen
    if out.length < ptLen then (false, out)
    else
      let expected := poly1305Tag mac key nonce ad (ciphertext.take ptLen)
      if !ctEqual expected.toList (ciphertext.drop ptLen) then
        (false, copyAt out 0 (List.replicate ptLen 0))
      else (true, copyAt out 0 (chacha20Xor key 1 nonce (ciphertext.take ptLen)))

/-- `noise_nonce`: four zero bytes, then the counter. -/
def noiseNonce (n : UInt64) : Nonce12 := copyInto 12 (List.replicate 4 0 ++ store64Le n)

/-- `aead_encrypt`, under the counter's nonce. -/
def aeadEncrypt (key : SymKey) (nonce : UInt64) (ad plaintext out : Bytes) : Bytes :=
  aeadEncryptN12 mac key (noiseNonce nonce) ad plaintext out

/-- `aead_decrypt`, under the counter's nonce. -/
def aeadDecrypt (key : SymKey) (nonce : UInt64) (ad ciphertext out : Bytes) : Bool × Bytes :=
  aeadDecryptN12 mac key (noiseNonce nonce) ad ciphertext out

/-! ## The keystream

Taken twice it is gone, whatever the key and the counter. -/

@[simp] theorem length_qr (x : List UInt32) (a b c d : Nat) : (qr x a b c d).length = x.length := by
  simp only [qr, List.length_set]

theorem length_foldl_qr (qs : List (Nat × Nat × Nat × Nat)) (x : List UInt32) :
    (qs.foldl (fun x q => qr x q.1 q.2.1 q.2.2.1 q.2.2.2) x).length = x.length := by
  induction qs generalizing x with
  | nil => rfl
  | cons q qs ih => rw [List.foldl_cons, ih, length_qr]

theorem length_iterate_doubleRound (n : Nat) (x : List UInt32) :
    (Nat.iterate doubleRound n x).length = x.length := by
  induction n generalizing x with
  | zero => rfl
  | succ n ih => exact (ih (doubleRound x)).trans (length_foldl_qr quarterRounds x)

theorem length_chacha20Init (key : SymKey) (counter : UInt32) (nonce : Nonce12) :
    (chacha20Init key counter nonce).length = 16 := by
  simp [chacha20Init]

theorem length_chacha20Block (key : SymKey) (counter : UInt32) (nonce : Nonce12) :
    (chacha20Block key counter nonce).length = 64 := by
  rw [chacha20Block, length_flatMap_store32Le, List.length_zipWith, length_iterate_doubleRound,
    length_chacha20Init]
  rfl

-- RFC 8439, section 2.3.2
example : (chacha20Block (copyInto 32 ((List.range 32).map UInt8.ofNat)) 1
    (copyInto 12 [0, 0, 0, 9, 0, 0, 0, 0x4A])).take 8 =
      [0x10, 0xF1, 0xE7, 0xE4, 0xD1, 0x3B, 0x59, 0x15] := by decide +kernel

section Keystream

variable (key : SymKey) (counter : UInt32) (nonce : Nonce12) (input : Bytes)

@[simp] theorem length_chacha20Xor : (chacha20Xor key counter nonce input).length = input.length :=
  length_xorStream _ (by omega) (fun c => length_chacha20Block key c nonce) _ _ _ (Nat.le_refl _)

/-- Encrypting twice is doing nothing. -/
theorem chacha20Xor_chacha20Xor :
    chacha20Xor key counter nonce (chacha20Xor key counter nonce input) = input := by
  have hlen := length_chacha20Xor key counter nonce input
  unfold chacha20Xor at hlen ⊢
  rw [hlen]
  exact xorStream_xorStream _ (by omega) (fun c => length_chacha20Block key c nonce) _ _ _
    (Nat.le_refl _)

end Keystream

/-! ## What the MAC is given

Two pairs of additional data and ciphertext give the same string only if they
are the same. -/

/-- The MAC's input names both its parts. -/
theorem macInput_inj {ad ct ad' ct' : Bytes} (had : ad.length < 2 ^ 64) (hct : ct.length < 2 ^ 64)
    (had' : ad'.length < 2 ^ 64) (hct' : ct'.length < 2 ^ 64)
    (h : macInput ad ct = macInput ad' ct') : ad = ad' ∧ ct = ct' := by
  -- the length suffix has a fixed length and fixes both lengths; the rest is cut by them
  obtain ⟨htext, hlens⟩ := List.append_inj' h (by simp)
  obtain ⟨hadLe, hctLe⟩ := List.append_inj hlens (by simp)
  have hadLen : ad.length = ad'.length := by
    have hnat := congrArg UInt64.toNat (store64Le_inj hadLe)
    rwa [UInt64.toNat_ofNat_of_lt' had, UInt64.toNat_ofNat_of_lt' had'] at hnat
  have hctLen : ct.length = ct'.length := by
    have hnat := congrArg UInt64.toNat (store64Le_inj hctLe)
    rwa [UInt64.toNat_ofNat_of_lt' hct, UInt64.toNat_ofNat_of_lt' hct'] at hnat
  rw [List.append_assoc, List.append_assoc] at htext
  obtain ⟨hadEq, htext⟩ := List.append_inj htext hadLen
  rw [hadLen] at htext
  have htext := List.append_cancel_left htext
  exact ⟨hadEq, (List.append_inj htext hctLen).1⟩

/-! ## The tag comparison

A comparison that does not stop early decides equality all the same. -/

theorem foldl_or_eq_zero (ds : List UInt8) (d : UInt8) :
    ds.foldl (fun diff d => diff ||| d) d = 0 ↔ d = 0 ∧ ∀ x ∈ ds, x = 0 := by
  induction ds generalizing d with
  | nil => simp
  | cons x ds ih =>
      rw [List.foldl_cons, ih, UInt8.or_eq_zero_iff, List.forall_mem_cons, and_assoc]

theorem zipWith_xor_eq_zero {a b : Bytes} (hlen : a.length = b.length) :
    (∀ x ∈ List.zipWith (· ^^^ ·) a b, x = 0) ↔ a = b := by
  induction a generalizing b with
  | nil =>
      obtain rfl := List.length_eq_zero_iff.mp hlen.symm
      simp
  | cons x a ih =>
      cases b with
      | nil => cases hlen
      | cons y b =>
          rw [List.zipWith_cons_cons, List.forall_mem_cons, ih (Nat.succ.inj hlen),
            UInt8.xor_eq_zero_iff, List.cons.injEq]

/-- `ct_equal` is equality. -/
theorem ctEqual_iff (a b : Bytes) : ctEqual a b = true ↔ a = b := by
  unfold ctEqual
  by_cases hlen : a.length = b.length
  · rw [if_neg (not_not_intro hlen), beq_iff_eq, foldl_or_eq_zero, zipWith_xor_eq_zero hlen]
    exact and_iff_right rfl
  · rw [if_pos hlen]
    refine ⟨fun h => absurd h Bool.false_ne_true, fun h => absurd (congrArg List.length h) hlen⟩

/-! ## The construction

The four parts of what a caller may rely on: opening what was sealed, sealing
what was opened, refusing everything else, and writing nothing then. -/

section Construction

variable (key : SymKey) (nonce : Nonce12) (ad : Bytes)

/-- A ciphertext and its tag. -/
def sealed (plaintext : Bytes) : Bytes :=
  chacha20Xor key 1 nonce plaintext ++
    (poly1305Tag mac key nonce ad (chacha20Xor key 1 nonce plaintext)).toList

@[simp] theorem length_sealed (plaintext : Bytes) :
    (sealed mac key nonce ad plaintext).length = plaintext.length + kTagLen := by
  rw [sealed, List.length_append, length_chacha20Xor, Vector.length_toList]
  rfl

/-- What `aead_encrypt_n12` writes, and where it stops. -/
theorem aeadEncryptN12_eq (plaintext out : Bytes) :
    aeadEncryptN12 mac key nonce ad plaintext out =
      sealed mac key nonce ad plaintext ++ out.drop (plaintext.length + kTagLen) := by
  have hlen := length_chacha20Xor key 1 nonce plaintext
  have htag : ∀ tag : Tag, tag.toList.length = kTagLen := fun tag => tag.length_toList
  have hdrop : (chacha20Xor key 1 nonce plaintext ++ out.drop plaintext.length).drop
      (plaintext.length + kTagLen) = out.drop (plaintext.length + kTagLen) := by
    rw [← List.drop_drop, List.drop_left' hlen, List.drop_drop]
  unfold aeadEncryptN12
  dsimp only
  rw [copyAt_zero, hlen, List.take_left' hlen, copyAt, List.take_left' hlen, htag, hdrop]
  rfl

variable {ad} {ciphertext out : Bytes}

/-- A tag that verifies is the tag of the front. -/
theorem ctEqual_tag (tag : Tag) (rest : Bytes) : ctEqual tag.toList rest = true ↔ rest = tag.toList := by
  rw [ctEqual_iff, eq_comm]

/-- Everything `aead_decrypt_n12` can do. -/
theorem aeadDecryptN12_cases (ad ciphertext out : Bytes) :
    ((ciphertext.length < kTagLen ∨ out.length < ciphertext.length - kTagLen) ∧
      aeadDecryptN12 mac key nonce ad ciphertext out = (false, out)) ∨
    (kTagLen ≤ ciphertext.length ∧ ciphertext.length - kTagLen ≤ out.length ∧
      ciphertext.drop (ciphertext.length - kTagLen) ≠
        (poly1305Tag mac key nonce ad (ciphertext.take (ciphertext.length - kTagLen))).toList ∧
      aeadDecryptN12 mac key nonce ad ciphertext out =
        (false, copyAt out 0 (List.replicate (ciphertext.length - kTagLen) 0))) ∨
    (kTagLen ≤ ciphertext.length ∧ ciphertext.length - kTagLen ≤ out.length ∧
      ciphertext.drop (ciphertext.length - kTagLen) =
        (poly1305Tag mac key nonce ad (ciphertext.take (ciphertext.length - kTagLen))).toList ∧
      aeadDecryptN12 mac key nonce ad ciphertext out =
        (true, copyAt out 0
          (chacha20Xor key 1 nonce (ciphertext.take (ciphertext.length - kTagLen))))) := by
  unfold aeadDecryptN12
  split
  · rename_i hshort
    exact .inl ⟨.inl hshort, rfl⟩
  rename_i hlong
  dsimp only
  split
  · rename_i hsmall
    exact .inl ⟨.inr hsmall, rfl⟩
  rename_i hroom
  refine .inr ?_
  split
  · rename_i htag
    refine .inl ⟨Nat.le_of_not_lt hlong, Nat.le_of_not_lt hroom, ?_, rfl⟩
    intro heq
    rw [(ctEqual_tag _ _).mpr heq] at htag
    exact Bool.false_ne_true htag
  · rename_i htag
    refine .inr ⟨Nat.le_of_not_lt hlong, Nat.le_of_not_lt hroom, ?_, rfl⟩
    apply (ctEqual_tag _ _).mp
    simpa using htag

/-- What was sealed is read back. -/
theorem aeadDecryptN12_sealed {plaintext : Bytes} (hroom : plaintext.length ≤ out.length) :
    aeadDecryptN12 mac key nonce ad (sealed mac key nonce ad plaintext) out =
      (true, copyAt out 0 plaintext) := by
  have hlen := length_sealed mac key nonce ad plaintext
  have hpt : (sealed mac key nonce ad plaintext).length - kTagLen = plaintext.length := by
    rw [hlen, Nat.add_sub_cancel]
  have hfront : (sealed mac key nonce ad plaintext).take plaintext.length =
      chacha20Xor key 1 nonce plaintext := List.take_left' (length_chacha20Xor _ _ _ _)
  have htag : (sealed mac key nonce ad plaintext).drop plaintext.length =
      (poly1305Tag mac key nonce ad (chacha20Xor key 1 nonce plaintext)).toList :=
    List.drop_left' (length_chacha20Xor _ _ _ _)
  have hcases := aeadDecryptN12_cases mac key nonce ad (sealed mac key nonce ad plaintext) out
  rw [hpt, hfront, htag, chacha20Xor_chacha20Xor] at hcases
  obtain ⟨hshort | hsmall, _⟩ | ⟨_, _, hne, _⟩ | ⟨_, _, _, heq⟩ := hcases
  · rw [hlen] at hshort
    omega
  · omega
  · exact absurd rfl hne
  · exact heq

/-- Only what was sealed is accepted. -/
theorem sealed_of_aeadDecryptN12 {out' : Bytes}
    (h : aeadDecryptN12 mac key nonce ad ciphertext out = (true, out')) :
    ∃ plaintext, ciphertext = sealed mac key nonce ad plaintext ∧
      out' = copyAt out 0 plaintext := by
  obtain ⟨_, heq⟩ | ⟨_, _, _, heq⟩ | ⟨_, _, htag, heq⟩ :=
    aeadDecryptN12_cases mac key nonce ad ciphertext out
  · rw [heq] at h
    cases h
  · rw [heq] at h
    cases h
  · rw [heq] at h
    refine ⟨_, ?_, (congrArg Prod.snd h).symm⟩
    rw [sealed, chacha20Xor_chacha20Xor, ← htag, List.take_append_drop]

/-- Encryption into a buffer of exactly the right size. -/
theorem aeadEncryptN12_exact {plaintext : Bytes} (hout : out.length = plaintext.length + kTagLen) :
    aeadEncryptN12 mac key nonce ad plaintext out = sealed mac key nonce ad plaintext := by
  rw [aeadEncryptN12_eq, List.drop_of_length_le (Nat.le_of_eq hout), List.append_nil]

end Construction

/-- The buffer, if the tag verified. -/
def opened (result : Bool × Bytes) : Option Bytes := if result.1 then some result.2 else none

/-- The construction as the protocol calls it, with buffers of the sizes its
callers give. -/
def chachaPoly : Aead where
  encrypt key nonce ad plaintext :=
    aeadEncrypt mac key (UInt64.ofNat nonce) ad plaintext
      (List.replicate (plaintext.length + kTagLen) 0)
  decrypt key nonce ad ciphertext :=
    opened (aeadDecrypt mac key (UInt64.ofNat nonce) ad ciphertext
      (List.replicate (ciphertext.length - kTagLen) 0))

theorem chachaPoly_encrypt (key : SymKey) (nonce : Nat) (ad plaintext : Bytes) :
    (chachaPoly mac).encrypt key nonce ad plaintext =
      sealed mac key (noiseNonce (UInt64.ofNat nonce)) ad plaintext :=
  aeadEncryptN12_exact mac key _ List.length_replicate

/-- It does what the protocol relies on. -/
theorem chachaPoly_lawful : (chachaPoly mac).Lawful where
  length_encrypt key nonce ad plaintext := by
    rw [chachaPoly_encrypt, length_sealed]
  decrypt_encrypt key nonce ad plaintext := by
    have hsize : (List.replicate plaintext.length (0 : UInt8)).length = plaintext.length :=
      List.length_replicate
    have hopen := @aeadDecryptN12_sealed mac key (noiseNonce (UInt64.ofNat nonce)) ad _ _
      (Nat.le_of_eq hsize.symm)
    rw [copyAt_zero, List.drop_of_length_le (Nat.le_of_eq hsize), List.append_nil] at hopen
    rw [chachaPoly_encrypt]
    show opened (aeadDecryptN12 mac key _ ad _ (List.replicate _ 0)) = some plaintext
    rw [length_sealed, Nat.add_sub_cancel, hopen]
    rfl

end UConnect.Crypto
