/-
  Crypto/Handshake.lean --- the two messages of a Noise exchange, end to end.

  WHAT THIS FILE IS FOR.  Crypto/Noise.lean has one state for each side; here
  the two are put together.  Writer and reader run through different code but
  mix the same values, which is said once: `opening` and `closing` are the
  symmetric states around the two payloads, and the four equations
  `writeMessage_first`, `readMessage_first`, `writeMessage_second` and
  `readMessage_second` express both sides of both messages in them.

  TWO RESULTS.  `exchange_agrees`: with equal arguments the exchange ends with
  both sides in agreement.  `exchange_binds`: an exchange that ends at all had
  equal arguments, given that the hashes it computed do not collide and that
  what either side opened the other had sealed.
-/
import UConnect.Crypto.Noise

set_option autoImplicit false

namespace UConnect.Crypto

open UConnect UConnect.Foundation

variable {P : Primitives}

/-! ## The symmetric state, field by field

What each operation does to each field, so that the equations below are
rewriting.  `Agree` leaves out the trace, which is of one side only. -/

namespace SymmetricState

variable (s : SymmetricState) (data : Bytes)

@[simp] theorem mixHash_h : (s.mixHash P data).h = P.hash (s.h.toList ++ data) := rfl
@[simp] theorem mixHash_ck : (s.mixHash P data).ck = s.ck := rfl
@[simp] theorem mixHash_cipher : (s.mixHash P data).cipher = s.cipher := rfl
@[simp] theorem mixHash_trace :
    (s.mixHash P data).trace = s.trace ++ [.hash (s.h.toList ++ data)] := rfl
@[simp] theorem mixKey_h : (s.mixKey P data).h = s.h := rfl
@[simp] theorem mixKey_ck : (s.mixKey P data).ck = (hkdf2 P s.ck.toList data).1 := rfl
@[simp] theorem mixKey_cipher :
    (s.mixKey P data).cipher = .ofKey (hkdf2 P s.ck.toList data).2 := rfl
@[simp] theorem mixKey_trace :
    (s.mixKey P data).trace = s.trace ++ [.hkdf2 s.ck.toList data] := rfl
@[simp] theorem mixKeyAndHash_h :
    (s.mixKeyAndHash P data).h =
      P.hash (s.h.toList ++ (hkdf3 P s.ck.toList data).2.1.toList) := rfl
@[simp] theorem mixKeyAndHash_ck :
    (s.mixKeyAndHash P data).ck = (hkdf3 P s.ck.toList data).1 := rfl
@[simp] theorem mixKeyAndHash_cipher :
    (s.mixKeyAndHash P data).cipher = .ofKey (hkdf3 P s.ck.toList data).2.2 := rfl
@[simp] theorem mixKeyAndHash_trace :
    (s.mixKeyAndHash P data).trace =
      s.trace ++ [.hkdf3 s.ck.toList data] ++
        [.hash (s.h.toList ++ (hkdf3 P s.ck.toList data).2.1.toList)] := rfl

/-- Two sides that have mixed the same values; their histories may differ. -/
structure Agree (s t : SymmetricState) : Prop where
  ck : s.ck = t.ck
  h : s.h = t.h
  cipher : s.cipher = t.cipher

variable {s} {t : SymmetricState}

theorem Agree.refl (s : SymmetricState) : Agree s s := ⟨rfl, rfl, rfl⟩

theorem Agree.symm (hst : Agree s t) : Agree t s :=
  ⟨hst.ck.symm, hst.h.symm, hst.cipher.symm⟩

theorem Agree.mixHash (hst : Agree s t) (data : Bytes) :
    Agree (s.mixHash P data) (t.mixHash P data) :=
  ⟨hst.ck, by rw [mixHash_h, mixHash_h, hst.h], hst.cipher⟩

theorem Agree.mixKey (hst : Agree s t) (ikm : Bytes) :
    Agree (s.mixKey P ikm) (t.mixKey P ikm) :=
  ⟨by rw [mixKey_ck, mixKey_ck, hst.ck], hst.h, by rw [mixKey_cipher, mixKey_cipher, hst.ck]⟩

/-- What one side seals the other opens, and they still agree. -/
theorem Agree.decrypt_encrypt (hP : P.aead.Lawful) (hst : Agree s t) {p : Bytes} {outSize : Nat}
    (hroom : p.length ≤ outSize) :
    ∃ t', t.decryptAndHash P (s.encryptAndHash P p).1 outSize = some (p, t') ∧
      Agree (s.encryptAndHash P p).2 t' := by
  unfold encryptAndHash decryptAndHash CipherState.encryptWithAd CipherState.decryptWithAd
  rw [hst.cipher, hst.h]
  cases hkey : t.cipher.hasKey with
  | false =>
      simp only [Bool.not_false, if_true, Nat.not_lt.mpr hroom, if_false, Option.map_some]
      exact ⟨_, rfl, ⟨hst.ck, by simp only [mixHash_h], rfl⟩⟩
  | true =>
      have hlen := hP.length_encrypt t.cipher.key t.cipher.nonce t.h.toList p
      simp only [Bool.not_true, Bool.false_eq_true, if_false, hlen, Nat.add_sub_cancel,
        Nat.not_lt.mpr hroom, Nat.not_lt.mpr (Nat.le_add_left _ _), hP.decrypt_encrypt,
        Option.map_some]
      exact ⟨_, rfl, ⟨hst.ck, by simp only [mixHash_h], rfl⟩⟩

end SymmetricState

/-! ## The two messages

The states around the payloads, as functions of what both sides share, and the
equations that say that both sides go through them. -/

/-- The `e` token of either side. -/
def ephemeral (P : Primitives) (p : Pattern) (s : SymmetricState) (pub : PublicKey) :
    SymmetricState :=
  if p = .nnPsk0 then (s.mixHash P pub.toList).mixKey P pub.toList else s.mixHash P pub.toList

/-- The symmetric state in front of the first `e` token. -/
def preface (P : Primitives) (p : Pattern) (prologue : Bytes) (psk : Option SymKey) :
    SymmetricState :=
  let s := (SymmetricState.create P (protocolName p)).mixHash P prologue
  if p = .nnPsk0 then s.mixKeyAndHash P (psk.getD (Vector.replicate 32 0)).toList else s

/-- The symmetric state in front of the payload of message 1. -/
def opening (P : Primitives) (p : Pattern) (prologue : Bytes) (psk : Option SymKey)
    (pub : PublicKey) : SymmetricState :=
  ephemeral P p (preface P p prologue psk) pub

/-- The symmetric state in front of the payload of message 2. -/
def closing (P : Primitives) (p : Pattern) (s : SymmetricState) (pub shared : PublicKey) :
    SymmetricState :=
  (ephemeral P p s pub).mixKey P shared.toList

/-- The initiator behind message 1. -/
def HandshakeState.sent (P : Primitives) (p : Pattern) (psk : Option SymKey)
    (random : SecretKey) (sym : SymmetricState) : HandshakeState where
  pattern := p
  initiator := true
  msgIndex := 1
  psk := psk.getD (Vector.replicate 32 0)
  eSecret := random
  ePub := P.publicOf random
  sym := sym
  random := random

/-- The responder behind message 1. -/
def HandshakeState.received (p : Pattern) (psk : Option SymKey) (random : SecretKey)
    (re : PublicKey) (sym : SymmetricState) : HandshakeState where
  pattern := p
  initiator := false
  msgIndex := 1
  psk := psk.getD (Vector.replicate 32 0)
  re := re
  haveRe := true
  sym := sym
  random := random

/-- The peer's ephemeral in a message. -/
def remoteOf (message : Bytes) : PublicKey := copyInto 32 (message.take kDhLen)

section Messages

open HandshakeState

variable (p : Pattern) (prologue : Bytes) (psk : Option SymKey) (random : SecretKey)

theorem writeMessage_first {payload : Bytes}
    (hroom : payload.length + messageOverhead p 0 ≤ 256) :
    (HandshakeState.create P p true prologue psk random).writeMessage P payload 256 =
      let sealed := (opening P p prologue psk (P.publicOf random)).encryptAndHash P payload
      some ((P.publicOf random).toList ++ sealed.1, .sent P p psk random sealed.2) := by
  have hspace : ¬ 256 < payload.length + messageOverhead p 0 := Nat.not_lt.mpr hroom
  simp only [writeMessage, HandshakeState.create, hspace, mixPsk, generate, mixEphemeral, advance,
    opening, preface, ephemeral, sent]
  cases p with
  | nn => simp
  | nnPsk0 => simp

theorem readMessage_first (message : Bytes) :
    (HandshakeState.create P p false prologue psk random).readMessage P message 256 =
      if message.length < messageOverhead p 0 then none
      else ((opening P p prologue psk (remoteOf message)).decryptAndHash P
        (message.drop kDhLen) 256).map fun q =>
          (q.1, .received p psk random (remoteOf message) q.2) := by
  simp only [readMessage, HandshakeState.create, mixPsk, readEphemeral, mixEphemeral, advance,
    opening, preface, ephemeral, received, remoteOf]
  cases p with
  | nn => simp
  | nnPsk0 => simp

theorem writeMessage_second (re : PublicKey) (sym : SymmetricState) {payload : Bytes}
    (hroom : payload.length + messageOverhead p 1 ≤ 256) :
    (HandshakeState.received p psk random re sym).writeMessage P payload 256 =
      (P.x25519 random re).map fun shared =>
        let sealed := (closing P p sym (P.publicOf random) shared).encryptAndHash P payload
        ((P.publicOf random).toList ++ sealed.1,
          { HandshakeState.received p psk random re sealed.2 with
            eSecret := random
            ePub := P.publicOf random
            msgIndex := 2
            finished := true }) := by
  have hspace : ¬ 256 < payload.length + messageOverhead p 1 := Nat.not_lt.mpr hroom
  simp only [writeMessage, received, hspace, generate, mixEphemeral, mixShared, advance, closing,
    ephemeral]
  cases p with
  | nn => simp [Function.comp_def]
  | nnPsk0 => simp [Function.comp_def]

theorem readMessage_second (sym : SymmetricState) (message : Bytes) :
    (HandshakeState.sent P p psk random sym).readMessage P message 256 =
      if message.length < messageOverhead p 1 then none
      else (P.x25519 random (remoteOf message)).bind fun shared =>
        ((closing P p sym (remoteOf message) shared).decryptAndHash P
          (message.drop kDhLen) 256).map fun q =>
            (q.1, { HandshakeState.sent P p psk random q.2 with
              re := remoteOf message
              haveRe := true
              msgIndex := 2
              finished := true }) := by
  simp only [readMessage, sent, readEphemeral, mixEphemeral, mixShared, advance, closing,
    ephemeral, remoteOf]
  cases p with
  | nn => simp [Option.bind_map]
  | nnPsk0 => simp [Option.bind_map]

end Messages

@[simp] theorem remoteOf_append (pub : PublicKey) (rest : Bytes) :
    remoteOf (pub.toList ++ rest) = pub := by
  unfold remoteOf
  rw [List.take_left' (by simp [kDhLen])]
  exact copyInto_toList pub

@[simp] theorem drop_remote (pub : PublicKey) (rest : Bytes) :
    (pub.toList ++ rest).drop kDhLen = rest :=
  List.drop_left' (by simp [kDhLen])

theorem length_encryptAndHash (hP : P.aead.Lawful) (s : SymmetricState) (payload : Bytes) :
    (s.encryptAndHash P payload).1.length =
      payload.length + if s.cipher.hasKey then kTagLen else 0 := by
  unfold SymmetricState.encryptAndHash CipherState.encryptWithAd
  cases s.cipher.hasKey with
  | false => rfl
  | true => exact hP.length_encrypt _ _ _ _

@[simp] theorem create_cipher (name : Bytes) : (SymmetricState.create P name).cipher = {} := by
  unfold SymmetricState.create
  split
  · rfl
  · rfl

theorem opening_hasKey (p : Pattern) (prologue : Bytes) (psk : Option SymKey) (pub : PublicKey) :
    (opening P p prologue psk pub).cipher.hasKey = decide (p = .nnPsk0) := by
  cases p with
  | nn => simp [opening, preface, ephemeral]
  | nnPsk0 => simp [opening, preface, ephemeral, CipherState.ofKey]

theorem closing_hasKey (p : Pattern) (s : SymmetricState) (pub shared : PublicKey) :
    (closing P p s pub shared).cipher.hasKey = true := rfl

theorem length_first (hP : P.aead.Lawful) (p : Pattern) (prologue : Bytes) (psk : Option SymKey)
    (pub : PublicKey) (payload : Bytes) :
    (pub.toList ++ ((opening P p prologue psk pub).encryptAndHash P payload).1).length =
      payload.length + HandshakeState.messageOverhead p 0 := by
  rw [List.length_append, length_encryptAndHash hP, opening_hasKey]
  cases p <;> simp [HandshakeState.messageOverhead, kDhLen, kTagLen] <;> omega

theorem length_second (hP : P.aead.Lawful) (p : Pattern) (s : SymmetricState)
    (pub shared : PublicKey) (payload : Bytes) :
    (pub.toList ++ ((closing P p s pub shared).encryptAndHash P payload).1).length =
      payload.length + HandshakeState.messageOverhead p 1 := by
  rw [List.length_append, length_encryptAndHash hP, closing_hasKey]
  cases p <;> simp [HandshakeState.messageOverhead, kDhLen, kTagLen] <;> omega

/-- The length of message 1. -/
theorem length_writeMessage_first (hP : P.aead.Lawful) {p : Pattern} {prologue : Bytes}
    {psk : Option SymKey} {random : SecretKey} {payload m : Bytes} {hs : HandshakeState}
    (hroom : payload.length + HandshakeState.messageOverhead p 0 ≤ 256)
    (h : (HandshakeState.create P p true prologue psk random).writeMessage P payload 256 =
      some (m, hs)) :
    m.length = payload.length + HandshakeState.messageOverhead p 0 := by
  rw [writeMessage_first p prologue psk random hroom] at h
  obtain ⟨rfl, -⟩ := Prod.mk.inj (Option.some.inj h)
  exact length_first hP p prologue psk (P.publicOf random) payload

/-- The length of message 2. -/
theorem length_writeMessage_second (hP : P.aead.Lawful) {p : Pattern} {prologue : Bytes}
    {psk : Option SymKey} {random : SecretKey} {message plain payload m : Bytes}
    {hs hs' : HandshakeState}
    (hroom : payload.length + HandshakeState.messageOverhead p 1 ≤ 256)
    (hread : (HandshakeState.create P p false prologue psk random).readMessage P message 256 =
      some (plain, hs))
    (hwrite : hs.writeMessage P payload 256 = some (m, hs')) :
    m.length = payload.length + HandshakeState.messageOverhead p 1 := by
  rw [readMessage_first] at hread
  split at hread
  · cases hread
  obtain ⟨q, -, heq⟩ := Option.map_eq_some_iff.mp hread
  obtain ⟨-, rfl⟩ := Prod.mk.inj heq
  rw [writeMessage_second p psk random _ _ hroom] at hwrite
  obtain ⟨shared, -, heq⟩ := Option.map_eq_some_iff.mp hwrite
  obtain ⟨rfl, -⟩ := Prod.mk.inj heq
  exact length_second hP p q.2 (P.publicOf random) shared payload

/-! ## Equal arguments agree

With the same pattern, prologue and key a message that was written is read, and
the two sides split into mirrored halves. -/

theorem SymmetricState.Agree.closing {s t : SymmetricState} (hst : SymmetricState.Agree s t)
    (p : Pattern) (pub shared : PublicKey) :
    SymmetricState.Agree (closing P p s pub shared) (Crypto.closing P p t pub shared) := by
  unfold Crypto.closing ephemeral
  cases p with
  | nn => exact (hst.mixHash _).mixKey _
  | nnPsk0 => exact ((hst.mixHash _).mixKey _).mixKey _

/-- What two completed handshakes hold when they agree. -/
structure Mirrored (i r : Split) : Prop where
  send : i.send = r.recv
  recv : i.recv = r.send
  handshakeHash : i.handshakeHash = r.handshakeHash
  exported : i.exported = r.exported
  keyed : i.send.hasKey = true ∧ i.recv.hasKey = true

theorem mirrored_split {i r : HandshakeState} (hi : i.initiator = true) (hr : r.initiator = false)
    (hsym : SymmetricState.Agree r.sym i.sym) : Mirrored (i.split P) (r.split P) where
  send := by simp [HandshakeState.split, SymmetricState.split, hi, hr, hsym.ck]
  recv := by simp [HandshakeState.split, SymmetricState.split, hi, hr, hsym.ck]
  handshakeHash := hsym.h.symm
  exported := by simp [HandshakeState.split, SymmetricState.exportSecret, hsym.ck]
  keyed := by simp [HandshakeState.split, SymmetricState.split, CipherState.ofKey, hi]

/-- An exchange between equal arguments: both messages go through and the two
sides end mirrored. -/
structure Completes (P : Primitives) (i r : HandshakeState) (payload₁ payload₂ : Bytes)
    (m₁ m₂ : Bytes) (i₁ r₁ i₂ r₂ : HandshakeState) : Prop where
  write₁ : i.writeMessage P payload₁ 256 = some (m₁, i₁)
  read₁ : r.readMessage P m₁ 256 = some (payload₁, r₁)
  write₂ : r₁.writeMessage P payload₂ 256 = some (m₂, r₂)
  read₂ : i₁.readMessage P m₂ 256 = some (payload₂, i₂)
  mirrored : Mirrored (i₂.split P) (r₂.split P)

theorem exchange_agrees (hP : P.aead.Lawful) (p : Pattern) (prologue : Bytes)
    (psk : Option SymKey) {ri rr : SecretKey} {shared : PublicKey}
    (hi : P.x25519 ri (P.publicOf rr) = some shared)
    (hr : P.x25519 rr (P.publicOf ri) = some shared) {payload₁ payload₂ : Bytes}
    (hroom₁ : payload₁.length + HandshakeState.messageOverhead p 0 ≤ 256)
    (hroom₂ : payload₂.length + HandshakeState.messageOverhead p 1 ≤ 256) :
    ∃ m₁ m₂ i₁ r₁ i₂ r₂,
      Completes P (.create P p true prologue psk ri) (.create P p false prologue psk rr)
        payload₁ payload₂ m₁ m₂ i₁ r₁ i₂ r₂ := by
  have hagree := SymmetricState.Agree.refl (opening P p prologue psk (P.publicOf ri))
  obtain ⟨r₁, hopen₁, hagree₁⟩ :=
    hagree.decrypt_encrypt hP (Nat.le_of_add_right_le hroom₁)
  obtain ⟨i₂, hopen₂, hagree₂⟩ :=
    ((hagree₁.closing (P := P) p (P.publicOf rr) shared).symm).decrypt_encrypt hP
      (Nat.le_of_add_right_le hroom₂)
  have hlen₁ := length_first hP p prologue psk (P.publicOf ri) payload₁
  have hlen₂ := length_second hP p r₁ (P.publicOf rr) shared payload₂
  have hwrite₁ := writeMessage_first (P := P) p prologue psk ri hroom₁
  have hread₁ := readMessage_first (P := P) p prologue psk rr
    ((P.publicOf ri).toList ++
      ((opening P p prologue psk (P.publicOf ri)).encryptAndHash P payload₁).1)
  rw [if_neg (by rw [hlen₁]; omega), remoteOf_append, drop_remote, hopen₁,
    Option.map_some] at hread₁
  have hwrite₂ := writeMessage_second (P := P) p psk rr (P.publicOf ri) r₁ hroom₂
  rw [hr, Option.map_some] at hwrite₂
  have hread₂ := readMessage_second (P := P) p psk ri
    ((opening P p prologue psk (P.publicOf ri)).encryptAndHash P payload₁).2
    ((P.publicOf rr).toList ++
      ((closing P p r₁ (P.publicOf rr) shared).encryptAndHash P payload₂).1)
  rw [if_neg (by rw [hlen₂]; omega), remoteOf_append, drop_remote, hi, Option.bind_some, hopen₂,
    Option.map_some] at hread₂
  exact ⟨_, _, _, _, _, _, hwrite₁, hread₁, hwrite₂, hread₂, mirrored_split rfl rfl hagree₂⟩

/-! ## What an exchange binds

The converse: from the tags that verified back to the arguments.  The transcript
is bound by the hashes the exchange computed, and the payload of each message by
its tag under that transcript. -/

/-- The digest a call computes: the hash, or the HKDF output that is mixed into
the hash; the flag tells them apart. -/
def Call.digest (P : Primitives) : Call → Option (Bool × Hash)
  | .hash input => some (true, P.hash input)
  | .hkdf3 ck ikm => some (false, (Crypto.hkdf3 P ck ikm).2.1)
  | _ => none

/-- The seal that a successful `open` is the other end of. -/
def Call.sealed : Call → Option Call
  | .open key nonce ad cipher => some (.seal key nonce ad cipher)
  | _ => none

/-- Is this call a seal? -/
def Call.isSeal : Call → Bool
  | .seal .. => true
  | _ => false

/-- No two different calls among these compute the same digest. -/
def CollisionFree (P : Primitives) (calls : List Call) : Prop :=
  ∀ c ∈ calls, ∀ d ∈ calls, (c.digest P).isSome → c.digest P = d.digest P → c = d

/-- What one side opened the other had sealed, under the same key, nonce and
associated data. -/
def Authentic (opener sealer : List Call) : Prop :=
  ∀ c ∈ opener.filterMap Call.sealed, c ∈ sealer

instance (P : Primitives) (calls : List Call) : Decidable (CollisionFree P calls) :=
  inferInstanceAs (Decidable (∀ c ∈ calls, ∀ d ∈ calls,
    (c.digest P).isSome → c.digest P = d.digest P → c = d))

instance (opener sealer : List Call) : Decidable (Authentic opener sealer) :=
  inferInstanceAs (Decidable (∀ c ∈ opener.filterMap Call.sealed, c ∈ sealer))

variable {calls : List Call}

theorem CollisionFree.hash_inj (hfree : CollisionFree P calls) {x y : Bytes}
    (hx : .hash x ∈ calls) (hy : .hash y ∈ calls) (h : P.hash x = P.hash y) : x = y := by
  have heq := hfree _ hx _ hy rfl (by rw [Call.digest, Call.digest, h])
  exact Call.hash.inj heq

/-- The running hash determines what it was before and what was mixed in. -/
theorem CollisionFree.mixed_inj (hfree : CollisionFree P calls) {h h' : Hash} {d d' : Bytes}
    (hx : .hash (h.toList ++ d) ∈ calls) (hy : .hash (h'.toList ++ d') ∈ calls)
    (heq : P.hash (h.toList ++ d) = P.hash (h'.toList ++ d')) : h = h' ∧ d = d' := by
  obtain ⟨hh, hd⟩ := List.append_inj (hfree.hash_inj hx hy heq) (by simp)
  exact ⟨Vector.toList_inj.mp hh, hd⟩

theorem CollisionFree.hkdf3_inj (hfree : CollisionFree P calls) {ck ck' ikm ikm' : Bytes}
    (hx : .hkdf3 ck ikm ∈ calls) (hy : .hkdf3 ck' ikm' ∈ calls)
    (h : (hkdf3 P ck ikm).2.1 = (hkdf3 P ck' ikm').2.1) : ck = ck' ∧ ikm = ikm' := by
  have heq := hfree _ hx _ hy rfl (by rw [Call.digest, Call.digest, h])
  exact Call.hkdf3.inj heq

theorem Authentic.mem {opener sealer : List Call} (h : Authentic opener sealer) {key : SymKey}
    {nonce : Nat} {ad cipher : Bytes} (hopen : .open key nonce ad cipher ∈ opener) :
    .seal key nonce ad cipher ∈ sealer :=
  h _ (List.mem_filterMap.mpr ⟨_, hopen, rfl⟩)

/-! ### What the symmetric states log -/

theorem create_trace (p : Pattern) :
    (SymmetricState.create P (protocolName p)).trace = [.hash (protocolName p)] := by
  unfold SymmetricState.create
  rw [if_neg (by cases p <;> decide)]

@[simp] theorem ephemeral_h (p : Pattern) (s : SymmetricState) (pub : PublicKey) :
    (ephemeral P p s pub).h = P.hash (s.h.toList ++ pub.toList) := by
  cases p <;> rfl

theorem closing_h (p : Pattern) (s : SymmetricState) (pub shared : PublicKey) :
    (closing P p s pub shared).h = P.hash (s.h.toList ++ pub.toList) := ephemeral_h p s pub

theorem encryptAndHash_h (s : SymmetricState) (payload : Bytes) :
    (s.encryptAndHash P payload).2.h =
      P.hash (s.h.toList ++ (s.encryptAndHash P payload).1) := rfl

/-- Every call `s` logged, `t` has logged too. -/
def Logs (s t : SymmetricState) : Prop := s.trace ⊆ t.trace

theorem Logs.trans {s t u : SymmetricState} (hst : Logs s t) (htu : Logs t u) : Logs s u :=
  List.Subset.trans hst htu

theorem logs_ephemeral (p : Pattern) (s : SymmetricState) (pub : PublicKey) :
    Logs s (ephemeral P p s pub) ∧
      .hash (s.h.toList ++ pub.toList) ∈ (ephemeral P p s pub).trace := by
  cases p <;> simp [Logs, ephemeral]

theorem logs_closing (p : Pattern) (s : SymmetricState) (pub shared : PublicKey) :
    Logs s (closing P p s pub shared) ∧
      .hash (s.h.toList ++ pub.toList) ∈ (closing P p s pub shared).trace := by
  cases p <;> simp [Logs, closing, ephemeral]

theorem logs_encrypt (s : SymmetricState) (payload : Bytes) :
    Logs s (s.encryptAndHash P payload).2 ∧
      .hash (s.h.toList ++ (s.encryptAndHash P payload).1) ∈
        (s.encryptAndHash P payload).2.trace := by
  cases hkey : s.cipher.hasKey <;> simp [Logs, SymmetricState.encryptAndHash, hkey]

/-- What a successful `decrypt_and_hash` did. -/
theorem decryptAndHash_cases {s s' : SymmetricState} {cipher plain : Bytes} {outSize : Nat}
    (h : s.decryptAndHash P cipher outSize = some (plain, s')) :
    s'.h = P.hash (s.h.toList ++ cipher) ∧ Logs s s' ∧
      .hash (s.h.toList ++ cipher) ∈ s'.trace ∧
      s'.trace.filter Call.isSeal = s.trace.filter Call.isSeal ∧
      (s.cipher.hasKey = false → plain = cipher) ∧
      (s.cipher.hasKey = true →
        P.aead.decrypt s.cipher.key s.cipher.nonce s.h.toList cipher = some plain ∧
        .open s.cipher.key s.cipher.nonce s.h.toList cipher ∈ s'.trace) := by
  unfold SymmetricState.decryptAndHash at h
  obtain ⟨⟨plain', cs⟩, hopen, heq⟩ := Option.map_eq_some_iff.mp h
  obtain ⟨rfl, rfl⟩ := Prod.mk.inj heq
  unfold CipherState.decryptWithAd at hopen
  cases hkey : s.cipher.hasKey with
  | false =>
      rw [hkey] at hopen
      simp only [Bool.not_false, if_true] at hopen
      split at hopen
      · cases hopen
      · obtain ⟨rfl, -⟩ := Prod.mk.inj (Option.some.inj hopen)
        simp [Logs, Call.isSeal]
  | true =>
      rw [hkey] at hopen
      simp only [Bool.not_true, Bool.false_eq_true, if_false] at hopen
      split at hopen
      · cases hopen
      split at hopen
      · cases hopen
      obtain ⟨plain, hdec, heq⟩ := Option.map_eq_some_iff.mp hopen
      obtain ⟨rfl, -⟩ := Prod.mk.inj heq
      simp [Logs, Call.isSeal, hdec]

theorem seals_opening (p : Pattern) (prologue : Bytes) (psk : Option SymKey) (pub : PublicKey) :
    (opening P p prologue psk pub).trace.filter Call.isSeal = [] := by
  cases p <;> simp [opening, preface, ephemeral, create_trace, Call.isSeal]

theorem seals_closing (p : Pattern) (s : SymmetricState) (pub shared : PublicKey) :
    (closing P p s pub shared).trace.filter Call.isSeal = s.trace.filter Call.isSeal := by
  cases p <;> simp [closing, ephemeral, Call.isSeal]

theorem seals_encrypt {s : SymmetricState} (hkey : s.cipher.hasKey = true) (payload : Bytes) :
    (s.encryptAndHash P payload).2.trace.filter Call.isSeal =
      s.trace.filter Call.isSeal ++
        [.seal s.cipher.key s.cipher.nonce s.h.toList (s.encryptAndHash P payload).1] := by
  simp [SymmetricState.encryptAndHash, hkey, List.filter_cons, Call.isSeal]

/-- The hash in front of the first `e` token determines the pattern, the
prologue and the key. -/
theorem preface_inj (hfree : CollisionFree P calls) {p q : Pattern} {prologue prologue' : Bytes}
    {psk psk' : Option SymKey} (hlen : prologue.length ≠ kHashLen)
    (hlen' : prologue'.length ≠ kHashLen)
    (hcalls : (preface P p prologue psk).trace ⊆ calls)
    (hcalls' : (preface P q prologue' psk').trace ⊆ calls)
    (h : (preface P p prologue psk).h = (preface P q prologue' psk').h) :
    p = q ∧ prologue = prologue' ∧
      (p = .nnPsk0 → psk.getD (Vector.replicate 32 0) = psk'.getD (Vector.replicate 32 0)) := by
  cases p with
  | nn =>
      cases q with
      | nn =>
          simp only [preface, reduceCtorEq, if_false, SymmetricState.mixHash_h] at h
          have hmix := hfree.mixed_inj (hcalls (by simp [preface])) (hcalls' (by simp [preface])) h
          exact ⟨rfl, hmix.2, fun hp => Pattern.noConfusion hp⟩
      | nnPsk0 =>
          simp only [preface, reduceCtorEq, if_false, if_true, SymmetricState.mixHash_h,
            SymmetricState.mixKeyAndHash_h] at h
          have hmix := hfree.mixed_inj (hcalls (by simp [preface])) (hcalls' (by simp [preface])) h
          exact absurd (by rw [hmix.2]; simp [kHashLen]) hlen
  | nnPsk0 =>
      cases q with
      | nn =>
          simp only [preface, reduceCtorEq, if_false, if_true, SymmetricState.mixHash_h,
            SymmetricState.mixKeyAndHash_h] at h
          have hmix := hfree.mixed_inj (hcalls (by simp [preface])) (hcalls' (by simp [preface])) h
          exact absurd (by rw [← hmix.2]; simp [kHashLen]) hlen'
      | nnPsk0 =>
          simp only [preface, if_true, SymmetricState.mixHash_h,
            SymmetricState.mixKeyAndHash_h] at h
          have hmix := hfree.mixed_inj (hcalls (by simp [preface])) (hcalls' (by simp [preface])) h
          have hprologue := hfree.mixed_inj (hcalls (by simp [preface]))
            (hcalls' (by simp [preface])) hmix.1
          have hpsk := hfree.hkdf3_inj (hcalls (by simp [preface])) (hcalls' (by simp [preface]))
            (Vector.toList_inj.mp hmix.2)
          exact ⟨rfl, hprologue.2, fun _ => Vector.toList_inj.mp hpsk.2⟩

theorem opening_congr {p : Pattern} {prologue : Bytes} {psk psk' : Option SymKey}
    (pub : PublicKey)
    (h : p = .nnPsk0 → psk.getD (Vector.replicate 32 0) = psk'.getD (Vector.replicate 32 0)) :
    opening P p prologue psk pub = opening P p prologue psk' pub := by
  cases p with
  | nn => simp only [opening, preface, reduceCtorEq, if_false]
  | nnPsk0 => simp only [opening, preface, h rfl]

theorem encryptAndHash_keyed {s : SymmetricState} (hkey : s.cipher.hasKey = true)
    (payload : Bytes) :
    (s.encryptAndHash P payload).1 =
      P.aead.encrypt s.cipher.key s.cipher.nonce s.h.toList payload := by
  simp [SymmetricState.encryptAndHash, CipherState.encryptWithAd, hkey]

/-- If the initiator opens message 2, the two transcripts were the same from the
first byte on: what it opened the responder sealed under the same running hash,
and that hash goes back to the prologue. -/
theorem transcript_binds (hP : P.aead.Lawful) {p q : Pattern} {prologue prologue' : Bytes}
    {psk psk' : Option SymKey} {pubI pubR sharedI sharedR : PublicKey}
    {payload₁ payload₂ plain₁ plain₂ : Bytes} {r₁ i₂ : SymmetricState}
    (hlen : prologue.length ≠ kHashLen) (hlen' : prologue'.length ≠ kHashLen)
    (hroom : payload₁.length ≤ 256)
    (hopen₁ : (opening P q prologue' psk' pubI).decryptAndHash P
      ((opening P p prologue psk pubI).encryptAndHash P payload₁).1 256 = some (plain₁, r₁))
    (hopen₂ : (closing P p ((opening P p prologue psk pubI).encryptAndHash P payload₁).2 pubR
      sharedI).decryptAndHash P
        ((closing P q r₁ pubR sharedR).encryptAndHash P payload₂).1 256 = some (plain₂, i₂))
    (hfree : CollisionFree P
      (i₂.trace ++ ((closing P q r₁ pubR sharedR).encryptAndHash P payload₂).2.trace))
    (hauth : Authentic i₂.trace
      ((closing P q r₁ pubR sharedR).encryptAndHash P payload₂).2.trace) :
    (p = q ∧ prologue = prologue' ∧
      (p = .nnPsk0 → psk.getD (Vector.replicate 32 0) = psk'.getD (Vector.replicate 32 0))) ∧
    plain₁ = payload₁ ∧ plain₂ = payload₂ := by
  obtain ⟨hr₁, hlogR, hmemR, hsealR, hplain₁, hdec₁⟩ := decryptAndHash_cases hopen₁
  obtain ⟨-, hlogI, -, -, -, hdec₂⟩ := decryptAndHash_cases hopen₂
  obtain ⟨hdec₂, hmem₂⟩ := hdec₂ (closing_hasKey _ _ _ _)
  -- the responder seals once, in message 2
  have hseal := (List.mem_filter (p := Call.isSeal)).mpr ⟨hauth.mem hmem₂, rfl⟩
  rw [seals_encrypt (closing_hasKey _ _ _ _), seals_closing, hsealR, seals_opening,
    List.nil_append, List.mem_singleton] at hseal
  obtain ⟨hkey, hnonce, had, -⟩ := Call.seal.inj hseal
  -- back along the running hash
  have hcallsI : ∀ c ∈ ((opening P p prologue psk pubI).encryptAndHash P payload₁).2.trace,
      c ∈ i₂.trace := fun c hc => hlogI ((logs_closing _ _ _ _).1 hc)
  have hcallsR : ∀ c ∈ r₁.trace,
      c ∈ ((closing P q r₁ pubR sharedR).encryptAndHash P payload₂).2.trace :=
    fun c hc => (logs_encrypt _ _).1 ((logs_closing _ _ _ _).1 hc)
  have hclosing := Vector.toList_inj.mp had
  rw [closing_h, closing_h] at hclosing
  have h₁ := (hfree.mixed_inj (List.mem_append_left _ (hlogI (logs_closing _ _ _ _).2))
    (List.mem_append_right _ ((logs_encrypt _ _).1 (logs_closing _ _ _ _).2)) hclosing).1
  rw [encryptAndHash_h, hr₁] at h₁
  have h₂ := (hfree.mixed_inj (List.mem_append_left _ (hcallsI _ (logs_encrypt _ _).2))
    (List.mem_append_right _ (hcallsR _ hmemR)) h₁).1
  unfold opening at h₂
  rw [ephemeral_h, ephemeral_h] at h₂
  have h₃ := (hfree.mixed_inj
    (List.mem_append_left _ (hcallsI _ ((logs_encrypt _ _).1 (logs_ephemeral _ _ _).2)))
    (List.mem_append_right _ (hcallsR _ (hlogR (logs_ephemeral _ _ _).2))) h₂).1
  have hbind := preface_inj hfree hlen hlen'
    (fun c hc => List.mem_append_left _
      (hcallsI c ((logs_encrypt _ _).1 ((logs_ephemeral _ _ _).1 hc))))
    (fun c hc => List.mem_append_right _ (hcallsR c (hlogR ((logs_ephemeral _ _ _).1 hc)))) h₃
  refine ⟨hbind, ?_, ?_⟩
  · obtain ⟨rfl, rfl, hpsk⟩ := hbind
    rw [← opening_congr pubI hpsk] at hopen₁
    obtain ⟨t, hopen, -⟩ := (SymmetricState.Agree.refl
      (opening P p prologue psk pubI)).decrypt_encrypt hP hroom
    rw [hopen] at hopen₁
    exact (Prod.mk.inj (Option.some.inj hopen₁)).1.symm
  · rw [hkey, hnonce, had, encryptAndHash_keyed (closing_hasKey _ _ _ _),
      hP.decrypt_encrypt] at hdec₂
    exact (Option.some.inj hdec₂).symm

/-- Both messages of an exchange went through. -/
def Exchanged (P : Primitives) (i r : HandshakeState) (payload₁ payload₂ : Bytes)
    (plain₁ plain₂ : Bytes) (i₂ r₂ : HandshakeState) : Prop :=
  ∃ m₁ m₂ i₁ r₁,
    i.writeMessage P payload₁ 256 = some (m₁, i₁) ∧
    r.readMessage P m₁ 256 = some (plain₁, r₁) ∧
    r₁.writeMessage P payload₂ 256 = some (m₂, r₂) ∧
    i₁.readMessage P m₂ 256 = some (plain₂, i₂)

/-- The calls the two sides of an exchange log, as far as it gets. -/
def exchangeCalls (P : Primitives) (i r : HandshakeState) (payload₁ payload₂ : Bytes) :
    List Call × List Call :=
  match i.writeMessage P payload₁ 256 with
  | none => (i.sym.trace, r.sym.trace)
  | some (m₁, i) =>
      match r.readMessage P m₁ 256 with
      | none => (i.sym.trace, r.sym.trace)
      | some (_, r) =>
          match r.writeMessage P payload₂ 256 with
          | none => (i.sym.trace, r.sym.trace)
          | some (m₂, r) =>
              match i.readMessage P m₂ 256 with
              | none => (i.sym.trace, r.sym.trace)
              | some (_, i) => (i.sym.trace, r.sym.trace)

theorem Exchanged.calls_eq {i r : HandshakeState} {payload₁ payload₂ plain₁ plain₂ : Bytes}
    {i₂ r₂ : HandshakeState} (h : Exchanged P i r payload₁ payload₂ plain₁ plain₂ i₂ r₂) :
    exchangeCalls P i r payload₁ payload₂ = (i₂.sym.trace, r₂.sym.trace) := by
  obtain ⟨m₁, m₂, i₁, r₁, hwrite₁, hread₁, hwrite₂, hread₂⟩ := h
  simp only [exchangeCalls, hwrite₁, hread₁, hwrite₂, hread₂]

/-- An exchange that went through was between equal patterns, prologues and
keys, and either side read what the other wrote. -/
theorem exchange_binds (hP : P.aead.Lawful) {p q : Pattern} {prologue prologue' : Bytes}
    {psk psk' : Option SymKey} {ri rr : SecretKey} {payload₁ payload₂ plain₁ plain₂ : Bytes}
    {i₂ r₂ : HandshakeState}
    (hlen : prologue.length ≠ kHashLen) (hlen' : prologue'.length ≠ kHashLen)
    (hroom₁ : payload₁.length + HandshakeState.messageOverhead p 0 ≤ 256)
    (hroom₂ : payload₂.length + HandshakeState.messageOverhead q 1 ≤ 256)
    (hdone : Exchanged P (.create P p true prologue psk ri) (.create P q false prologue' psk' rr)
      payload₁ payload₂ plain₁ plain₂ i₂ r₂)
    {calls : List Call × List Call}
    (hcalls : exchangeCalls P (.create P p true prologue psk ri)
      (.create P q false prologue' psk' rr) payload₁ payload₂ = calls)
    (hfree : CollisionFree P (calls.1 ++ calls.2)) (hauth : Authentic calls.1 calls.2) :
    (p = q ∧ prologue = prologue' ∧
      (p = .nnPsk0 → psk.getD (Vector.replicate 32 0) = psk'.getD (Vector.replicate 32 0))) ∧
    plain₁ = payload₁ ∧ plain₂ = payload₂ := by
  rw [hdone.calls_eq] at hcalls
  subst hcalls
  obtain ⟨m₁, m₂, i₁, r₁, hwrite₁, hread₁, hwrite₂, hread₂⟩ := hdone
  rw [writeMessage_first p prologue psk ri hroom₁] at hwrite₁
  obtain ⟨rfl, rfl⟩ := Prod.mk.inj (Option.some.inj hwrite₁)
  rw [readMessage_first, remoteOf_append, drop_remote] at hread₁
  split at hread₁
  · cases hread₁
  obtain ⟨⟨plain, sR⟩, hopen₁, heq⟩ := Option.map_eq_some_iff.mp hread₁
  obtain ⟨rfl, rfl⟩ := Prod.mk.inj heq
  rw [writeMessage_second q psk' rr _ _ hroom₂] at hwrite₂
  obtain ⟨sharedR, -, heq⟩ := Option.map_eq_some_iff.mp hwrite₂
  obtain ⟨rfl, rfl⟩ := Prod.mk.inj heq
  rw [readMessage_second, remoteOf_append, drop_remote] at hread₂
  split at hread₂
  · cases hread₂
  obtain ⟨sharedI, -, hread₂⟩ := Option.bind_eq_some_iff.mp hread₂
  obtain ⟨⟨plain', sI⟩, hopen₂, heq⟩ := Option.map_eq_some_iff.mp hread₂
  obtain ⟨rfl, rfl⟩ := Prod.mk.inj heq
  exact transcript_binds hP hlen hlen' (Nat.le_of_add_right_le hroom₁) hopen₁ hopen₂ hfree hauth

end UConnect.Crypto
