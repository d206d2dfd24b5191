/-
  Crypto/Noise.lean --- the Noise cipher, symmetric and handshake states.

  Source: src/crypto/noise.hpp and src/crypto/noise.cpp.

  The patterns are NN (open topics) and NNpsk0 (keyed ones).  Randomness is a
  field: `random` is the secret `KeyPair::generate` returns on this side.
  Output spans are sized by the caller, so `writeMessage` and `readMessage` take
  the size of theirs.  A call that fails may leave the C++ object half mixed;
  every caller drops it then, and the model returns `none`.

  `trace` is a history variable: the calls of the primitives, for the results
  that assume something of the calls a run makes and not of all calls.
-/
import UConnect.Wire.Types
import UConnect.Crypto.Primitives

set_option autoImplicit false

namespace UConnect.Crypto

open UConnect UConnect.Foundation

variable (P : Primitives)

/-! ## CipherState

A key and the number of the next message under it. -/

/-- `CipherState`.  Without a key it passes everything through, as the first
message of NN needs. -/
structure CipherState where
  key : SymKey := Vector.replicate 32 0
  nonce : Nat := 0
  hasKey : Bool := false
  deriving DecidableEq

namespace CipherState

/-- The keyed constructor. -/
def ofKey (k : SymKey) : CipherState := { key := k, hasKey := true }

/-- `encrypt_with_ad`, under the next nonce. -/
def encryptWithAd (cs : CipherState) (ad plaintext : Bytes) : Bytes × CipherState :=
  if !cs.hasKey then (plaintext, cs)
  else (P.aead.encrypt cs.key cs.nonce ad plaintext, { cs with nonce := incr 64 cs.nonce })

/-- `decrypt_with_ad` into a span of `outSize` bytes; the nonce advances only on
success. -/
def decryptWithAd (cs : CipherState) (ad ciphertext : Bytes) (outSize : Nat) :
    Option (Bytes × CipherState) :=
  if !cs.hasKey then
    if outSize < ciphertext.length then none else some (ciphertext, cs)
  else if ciphertext.length < kTagLen then none
  else if outSize < ciphertext.length - kTagLen then none
  else
    (P.aead.decrypt cs.key cs.nonce ad ciphertext).map fun plain =>
      (plain, { cs with nonce := incr 64 cs.nonce })

/-- `encrypt_at`, under a nonce the caller has chosen; the state's own does not
move. -/
def encryptAt (cs : CipherState) (n : Nat) (ad plaintext : Bytes) : Bytes :=
  P.aead.encrypt cs.key n ad plaintext

/-- `decrypt_at`, into a span as long as the ciphertext. -/
def decryptAt (cs : CipherState) (n : Nat) (ad ciphertext : Bytes) : Option Bytes :=
  if ciphertext.length < kTagLen then none else P.aead.decrypt cs.key n ad ciphertext

/-- `rekey`: the first 32 bytes of zeros sealed at the last nonce. -/
def rekey (cs : CipherState) : CipherState :=
  { cs with
    key := copyInto 32 (P.aead.encrypt cs.key (2 ^ 64 - 1) [] (List.replicate kKeyLen 0)) }

/-- `clear`: as it was before it had a key. -/
def clear (_ : CipherState) : CipherState := {}

end CipherState

/-! ## SymmetricState

The chaining key and the transcript hash, which every message of a handshake
goes into. -/

/-- A call of a primitive. -/
inductive Call where
  | hash (input : Bytes)
  | hkdf2 (ck ikm : Bytes)
  | hkdf3 (ck ikm : Bytes)
  | seal (key : SymKey) (nonce : Nat) (ad cipher : Bytes)
  | «open» (key : SymKey) (nonce : Nat) (ad cipher : Bytes)
  deriving DecidableEq

/-- `SymmetricState`: the chaining key, the transcript hash and the cipher that
goes with them. -/
structure SymmetricState where
  ck : Hash
  h : Hash
  cipher : CipherState := {}
  /-- History variable: the calls so far; an `open` is one that succeeded. -/
  trace : List Call := []
  deriving DecidableEq

namespace SymmetricState

/-- The constructor: a name that fits is padded, a longer one is hashed. -/
def create (protocol : Bytes) : SymmetricState :=
  if protocol.length ≤ kHashLen then
    { ck := copyInto 32 protocol, h := copyInto 32 protocol }
  else
    { ck := P.hash protocol, h := P.hash protocol, trace := [.hash protocol] }

/-- `mix_hash`: the transcript goes on. -/
def mixHash (s : SymmetricState) (data : Bytes) : SymmetricState :=
  { s with
    h := P.hash (s.h.toList ++ data)
    trace := s.trace ++ [.hash (s.h.toList ++ data)] }

/-- `mix_key`: a new chaining key and a new cipher, whose nonce starts again. -/
def mixKey (s : SymmetricState) (ikm : Bytes) : SymmetricState :=
  let (newCk, tempK) := hkdf2 P s.ck.toList ikm
  { s with
    ck := newCk
    cipher := .ofKey tempK
    trace := s.trace ++ [.hkdf2 s.ck.toList ikm] }

/-- `mix_key_and_hash`: for the pre-shared key, which goes into the transcript
too. -/
def mixKeyAndHash (s : SymmetricState) (ikm : Bytes) : SymmetricState :=
  let (newCk, tempH, tempK) := hkdf3 P s.ck.toList ikm
  let s := { s with ck := newCk, trace := s.trace ++ [Call.hkdf3 s.ck.toList ikm] }
  { s.mixHash P tempH.toList with cipher := .ofKey tempK }

/-- `encrypt_and_hash`: what goes out is what goes into the transcript. -/
def encryptAndHash (s : SymmetricState) (plaintext : Bytes) : Bytes × SymmetricState :=
  let (out, cipher) := s.cipher.encryptWithAd P s.h.toList plaintext
  let trace := if s.cipher.hasKey then
      s.trace ++ [.seal s.cipher.key s.cipher.nonce s.h.toList out]
    else s.trace
  (out, { s with cipher := cipher, trace := trace }.mixHash P out)

/-- `decrypt_and_hash`: what came in goes into the transcript, once it has been
opened. -/
def decryptAndHash (s : SymmetricState) (ciphertext : Bytes) (outSize : Nat) :
    Option (Bytes × SymmetricState) :=
  (s.cipher.decryptWithAd P s.h.toList ciphertext outSize).map fun (plain, cipher) =>
    let trace := if s.cipher.hasKey then
        s.trace ++ [.open s.cipher.key s.cipher.nonce s.h.toList ciphertext]
      else s.trace
    (plain, { s with cipher := cipher, trace := trace }.mixHash P ciphertext)

/-- `split`: two keys from the chaining key, one for each direction. -/
def split (s : SymmetricState) : CipherState × CipherState :=
  let (t1, t2) := hkdf2 P s.ck.toList []
  (.ofKey t1, .ofKey t2)

/-- `export_secret`: a third one, under a label of its own. -/
def exportSecret (s : SymmetricState) (label : String) : Hash :=
  copyInto 32 (hkdf P s.ck.toList [] (ascii label) kHashLen)

end SymmetricState

/-! ## HandshakeState

The two messages of the patterns, as a state that writes or reads the one that
is next. -/

/-- `Pattern`: without a key, and with one that is mixed in before anything
else. -/
inductive Pattern where
  | nn
  | nnPsk0
  deriving DecidableEq, Repr, Inhabited

/-- `protocol_name`, which the transcript starts from. -/
def protocolName : Pattern → Bytes
  | .nnPsk0 => ascii "Noise_NNpsk0_25519_ChaChaPoly_BLAKE2s"
  | .nn => ascii "Noise_NN_25519_ChaChaPoly_BLAKE2s"

/-- `Split`: what a completed handshake yields. -/
structure Split where
  send : CipherState
  recv : CipherState
  handshakeHash : Hash
  exported : Hash
  deriving DecidableEq

/-- `HandshakeState`.  `re` is the other side's ephemeral key once its message
has been read. -/
structure HandshakeState where
  pattern : Pattern
  initiator : Bool
  finished : Bool := false
  msgIndex : Nat := 0
  psk : SymKey := Vector.replicate 32 0
  eSecret : SecretKey := Vector.replicate 32 0
  ePub : PublicKey := Vector.replicate 32 0
  re : PublicKey := Vector.replicate 32 0
  haveRe : Bool := false
  sym : SymmetricState
  /-- The secret `KeyPair::generate` will return. -/
  random : SecretKey
  deriving DecidableEq

namespace HandshakeState

/-- The constructor behind `initiator` and `responder`. -/
def create (p : Pattern) (isInitiator : Bool) (prologue : Bytes) (psk : Option SymKey)
    (random : SecretKey) : HandshakeState where
  pattern := p
  initiator := isInitiator
  psk := psk.getD (Vector.replicate 32 0)
  sym := (SymmetricState.create P (protocolName p)).mixHash P prologue
  random := random

/-- `mix_ephemeral`: in a PSK handshake the ephemeral is also mixed as a key. -/
def mixEphemeral (hs : HandshakeState) (pub : PublicKey) : HandshakeState :=
  let sym := hs.sym.mixHash P pub.toList
  { hs with sym := if hs.pattern = .nnPsk0 then sym.mixKey P pub.toList else sym }

/-- `message_overhead`: what a message has beyond its payload. -/
def messageOverhead (p : Pattern) (messageIndex : Nat) : Nat :=
  if p = .nnPsk0 then kDhLen + kTagLen
  else if messageIndex = 0 then kDhLen
  else kDhLen + kTagLen

/-- The `psk` token, at the front of message 1. -/
def mixPsk (hs : HandshakeState) : HandshakeState :=
  if hs.pattern = .nnPsk0 then { hs with sym := hs.sym.mixKeyAndHash P hs.psk.toList } else hs

/-- `e_ = KeyPair::generate()` and the `e` token. -/
def generate (hs : HandshakeState) : HandshakeState :=
  let pub := P.publicOf hs.random
  { hs with eSecret := hs.random, ePub := pub }.mixEphemeral P pub

/-- The peer's ephemeral, read off the front of a message. -/
def readEphemeral (hs : HandshakeState) (message : Bytes) : HandshakeState :=
  let re : PublicKey := copyInto 32 (message.take kDhLen)
  { hs with re := re, haveRe := true }.mixEphemeral P re

/-- The `ee` token; `none` is a degenerate result. -/
def mixShared (hs : HandshakeState) : Option HandshakeState :=
  (P.x25519 hs.eSecret hs.re).map fun shared =>
    { hs with sym := hs.sym.mixKey P shared.toList }

/-- The counters behind either kind of message. -/
def advance (hs : HandshakeState) : HandshakeState :=
  { hs with
    msgIndex := hs.msgIndex + 1
    finished := hs.finished || hs.msgIndex + 1 = 2 }

/-- `write_message` into a span of `outSize` bytes. -/
def writeMessage (hs : HandshakeState) (payload : Bytes) (outSize : Nat) :
    Option (Bytes × HandshakeState) :=
  if hs.finished then none
  else if ((hs.msgIndex = 0) : Bool) ≠ hs.initiator then none
  else if outSize < payload.length + messageOverhead hs.pattern hs.msgIndex then none
  else
    let mixed := if hs.msgIndex = 0 then some ((hs.mixPsk P).generate P)
      else
        let hs := hs.generate P
        if !hs.haveRe then none else hs.mixShared P
    mixed.map fun hs =>
      let (out, sym) := hs.sym.encryptAndHash P payload
      (hs.ePub.toList ++ out, { hs with sym := sym }.advance)

/-- `read_message`, the payload into a span of `outSize` bytes. -/
def readMessage (hs : HandshakeState) (message : Bytes) (outSize : Nat) :
    Option (Bytes × HandshakeState) :=
  if hs.finished then none
  else if ((hs.msgIndex = 0) : Bool) = hs.initiator then none
  else if message.length < messageOverhead hs.pattern hs.msgIndex then none
  else
    let mixed := if hs.msgIndex = 0 then some ((hs.mixPsk P).readEphemeral P message)
      else (hs.readEphemeral P message).mixShared P
    mixed.bind fun hs =>
      (hs.sym.decryptAndHash P (message.drop kDhLen) outSize).map fun (plain, sym) =>
        (plain, { hs with sym := sym }.advance)

/-- `split`: the two ciphers as this side uses them, with the transcript and the
exported secret. -/
def split (hs : HandshakeState) : Split :=
  let (c1, c2) := hs.sym.split P
  { send := if hs.initiator then c1 else c2
    recv := if hs.initiator then c2 else c1
    handshakeHash := hs.sym.h
    exported := hs.sym.exportSecret P "uconnect:v2:export" }

end HandshakeState

end UConnect.Crypto
