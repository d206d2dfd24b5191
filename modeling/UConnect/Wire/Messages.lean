/-
  Wire/Messages.lean --- the header and the messages of the datagram channel.

  Source: src/wire/messages.hpp and src/wire/messages.cpp.

  A message type is the byte on the wire: the code casts any byte into the
  enumeration and then asks `classify` whether it knows it.

  The header comes first in every message and is the same for all of them; a
  receiver reads it before it decides what follows.
-/
import UConnect.Wire.Buffer

set_option autoImplicit false

namespace UConnect.Wire

open UConnect.Foundation

/-- `kVersion`, the version byte of the datagram channel. -/
def kVersion : UInt8 := 0x01

/-- `ConnId`, a `uint32_t` that names a datagram channel to the other end. -/
abbrev ConnId := Nat

/-- `MsgType`, by its byte. -/
abbrev MsgType := UInt8

/-- `MsgType::Transport`, a sealed packet. -/
def MsgType.transport : MsgType := 0x40
/-- `MsgType::Close`, the sealed notice that the sender is ending the channel. -/
def MsgType.close : MsgType := 0x41

/-- `MsgClass`: what the first byte of a datagram says about who should look at
it. -/
inductive MsgClass where
  | signaling
  | probe
  | transport
  | unknown
  deriving DecidableEq, Repr, Inhabited

/-- `classify`: by the range the type is in.  A type that is in a range and has
no name is classified all the same. -/
def classify (type : UInt8) : MsgClass :=
  if type ≥ 0x01 && type ≤ 0x1F then .signaling
  else if type ≥ 0x20 && type ≤ 0x2F then .probe
  else if type ≥ 0x40 && type ≤ 0x4F then .transport
  else .unknown

/-! ## Header

Every message opens with the same eight bytes. -/

/-- `Header`.  `txnId` is a `uint32_t` that a reply repeats. -/
structure Header where
  type : MsgType
  version : UInt8 := kVersion
  flags : UInt8 := 0
  txnId : Nat := 0
  deriving DecidableEq

/-- `Header::encode`: the fourth byte is reserved and written as 0. -/
def Header.encode (h : Header) (w : Writer) : Writer :=
  ((((w.u8 h.type).u8 h.version).u8 h.flags).u8 0).u32 h.txnId

/-- `Header::decode`: refused if it is short, of another version or of a type in
no range.  The reserved byte is not looked at. -/
def Header.decode (r : Reader) (version : UInt8 := kVersion) : Option Header × Reader :=
  let (type, r) := r.u8
  let (version', r) := r.u8
  let (flags, r) := r.u8
  let (_, r) := r.u8
  let (txnId, r) := r.u32
  if !r.ok || version' ≠ version then (none, r)
  else if classify type = .unknown then (none, r)
  else (some { type := type, version := version', flags := flags, txnId := txnId }, r)

/-- The eight bytes of a header. -/
def Header.image (h : Header) : Bytes :=
  [h.type, h.version, h.flags, 0] ++ beBytes 4 h.txnId

theorem Header.encode_ok {h : Header} {w : Writer} (hok : (h.encode w).ok = true) :
    w.ok = true ∧ (h.encode w).written = w.written ++ h.image := by
  unfold Header.encode at hok ⊢
  obtain ⟨h₁, e₁⟩ := Writer.bytes_ok hok
  obtain ⟨h₂, e₂⟩ := Writer.bytes_ok h₁
  obtain ⟨h₃, e₃⟩ := Writer.bytes_ok h₂
  obtain ⟨h₄, e₄⟩ := Writer.bytes_ok h₃
  obtain ⟨h₅, e₅⟩ := Writer.bytes_ok h₄
  refine ⟨h₅, ?_⟩
  simp only [Writer.u32, Writer.u8] at e₁ e₂ e₃ e₄ e₅ ⊢
  rw [e₁, e₂, e₃, e₄, e₅]
  simp [Header.image]

/-- A header of a known type is read back, whatever follows it. -/
theorem Header.decode_image {h : Header} {version : UInt8} (hver : h.version = version)
    (htype : classify h.type ≠ .unknown) (htxn : h.txnId < 256 ^ 4) (rest : Bytes) :
    Header.decode { rest := h.image ++ rest } version = (some h, { rest := rest }) := by
  unfold Header.decode Header.image
  simp only [List.cons_append, List.nil_append, Reader.u8_cons]
  rw [Reader.u32, Reader.uint_append htxn]
  simp [hver, htype]
  rw [← hver]

/-! ## Transport and Close

The packets of a datagram channel.  What is sealed runs to the end of the
datagram and has no length of its own. -/

/-- `Transport`; `Close` is the same envelope. -/
structure Transport where
  connId : ConnId
  counter : Nat
  ciphertext : Bytes
  deriving DecidableEq

/-- `Transport::encode`: the channel, the counter the nonce is made of, and the
sealed bytes. -/
def Transport.encode (t : Transport) (w : Writer) : Writer :=
  ((w.u32 t.connId).u64 t.counter).bytes t.ciphertext

/-- `Transport::decode`: whatever is behind the counter is taken for the sealed
bytes. -/
def Transport.decode (r : Reader) : Option Transport :=
  let (connId, r) := r.u32
  let (counter, r) := r.u64
  if !r.ok then none
  else
    let (ciphertext, _) := r.bytes r.remaining
    some { connId := connId, counter := counter, ciphertext := ciphertext }

/-- The bytes of a transport body. -/
def Transport.image (t : Transport) : Bytes :=
  beBytes 4 t.connId ++ beBytes 8 t.counter ++ t.ciphertext

theorem Transport.encode_ok {t : Transport} {w : Writer} (hok : (t.encode w).ok = true) :
    w.ok = true ∧ (t.encode w).written = w.written ++ t.image := by
  unfold Transport.encode at hok ⊢
  obtain ⟨h₁, e₁⟩ := Writer.bytes_ok hok
  obtain ⟨h₂, e₂⟩ := Writer.bytes_ok h₁
  obtain ⟨h₃, e₃⟩ := Writer.bytes_ok h₂
  refine ⟨h₃, ?_⟩
  simp only [Writer.u32, Writer.u64] at e₁ e₂ e₃ ⊢
  rw [e₁, e₂, e₃]
  simp [Transport.image]

theorem Transport.decode_image {t : Transport} (hconn : t.connId < 256 ^ 4)
    (hcounter : t.counter < 256 ^ 8) : Transport.decode { rest := t.image } = some t := by
  unfold Transport.decode Transport.image
  rw [List.append_assoc, Reader.u32, Reader.uint_append hconn]
  dsimp only
  rw [Reader.u64, Reader.uint_append hcounter]
  dsimp only
  rw [Reader.bytes_remaining]
  rfl

end UConnect.Wire
