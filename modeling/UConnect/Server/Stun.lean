/-
  Server/Stun.lean --- reading a STUN Binding response.

  Source: server/stun.cpp, `parse_binding_response`, `decode_xor_mapped_address`
  and `decode_mapped_address`.

  The packet comes from the network unauthenticated.  Every access goes through
  `slice`, which faults behind the end of the span it reads: the packet for the
  header, the declared message for the attributes, the attribute's value for the
  addresses.  The loop over the attributes runs on fuel and faults when that is
  used up.  No packet leads to a fault, and a response that carries an address
  is read as that address.
-/
import UConnect.Foundation.Buffers
import UConnect.Wire.Candidates

set_option autoImplicit false

namespace UConnect.Server.Stun

open UConnect.Foundation UConnect.Crypto

/-! ## Checked reads

Every read names its span and is refused outside it, so that an access out of
bounds cannot pass unnoticed. -/

/-- What the source must never do. -/
inductive Fault where
  /-- A read of `count` bytes at `offset` that leaves its span. -/
  | outside (offset count : Nat)
  /-- A loop that has not come to its end. -/
  | unfinished
  deriving DecidableEq

/-- `count` bytes of a span. -/
def slice (span : Bytes) (offset count : Nat) : Except Fault Bytes :=
  if offset + count ≤ span.length then .ok ((span.drop offset).take count)
  else .error (.outside offset count)

/-- `read_u16`, `read_u32` and a plain access: `count` bytes, most significant
first. -/
def readUint (span : Bytes) (offset count : Nat) : Except Fault Nat :=
  (slice span offset count).map beVal

/-! ## Addresses

The two ways a response gives an address: masked with the cookie and the
transaction, and in the clear. -/

def kMagicCookie : Nat := 0x2112A442
def kBindingSuccessResponse : Nat := 0x0101
def kMappedAddress : Nat := 0x0001
def kXorMappedAddress : Nat := 0x0020
def kHeaderSize : Nat := 20

/-- `std::array<uint8_t, kTransactionIdSize>`, which the request drew. -/
abbrev TransactionId := Vector UInt8 12

/-- `IpAddr::v4`, with the bytes an IPv4 address does not use left zero. -/
def ipV4 (bytes : Bytes) : IpAddr := { family := .v4, bytes := copyInto 16 bytes }

/-- An address of the other family. -/
def ipV6 (bytes : Bytes) : IpAddr := { family := .v6, bytes := copyInto 16 bytes }

/-- The mask of an IPv6 address. -/
def mask6 (id : TransactionId) : Bytes := beBytes 4 kMagicCookie ++ id.toList

/-- `decode_xor_mapped_address`.  A value that is too short for its family has
no address. -/
def decodeXorMappedAddress (value : Bytes) (id : TransactionId) :
    Except Fault (Option Endpoint) :=
  if value.length < 4 then .ok none
  else do
    let family ← readUint value 1 1
    let xorPort ← readUint value 2 2
    let port := xorPort ^^^ (kMagicCookie >>> 16)
    if family = 0x01 then
      if value.length < 8 then .ok none
      else do
        let xorAddress ← readUint value 4 4
        let address := xorAddress ^^^ kMagicCookie
        .ok (some { ip := ipV4 (beBytes 4 address), port := port })
    else if family = 0x02 then
      if value.length < 20 then .ok none
      else do
        let bytes ← slice value 4 16
        .ok (some { ip := ipV6 (xorBytes bytes (mask6 id)), port := port })
    else .ok none

/-- `decode_mapped_address`, the older attribute, which is not masked. -/
def decodeMappedAddress (value : Bytes) : Except Fault (Option Endpoint) :=
  if value.length < 4 then .ok none
  else do
    let family ← readUint value 1 1
    let port ← readUint value 2 2
    if family = 0x01 then
      if value.length < 8 then .ok none
      else do
        let bytes ← slice value 4 4
        .ok (some { ip := ipV4 bytes, port := port })
    else if family = 0x02 then
      if value.length < 20 then .ok none
      else do
        let bytes ← slice value 4 16
        .ok (some { ip := ipV6 bytes, port := port })
    else .ok none

/-! ## The response

The checks of the header, then the attributes one after another. -/

/-- What the loop does with one attribute: the address in it, if it has one. -/
def decodeAttribute (type : Nat) (value : Bytes) (id : TransactionId) :
    Except Fault (Option Endpoint) :=
  (if type = kXorMappedAddress then decodeXorMappedAddress value id else .ok none).bind
    fun fromXor =>
      if fromXor.isSome then .ok fromXor
      else if type = kMappedAddress then decodeMappedAddress value else .ok none

/-- The next multiple of four, `(offset + 3) & ~3`. -/
def align4 (offset : Nat) : Nat := (offset + 3) / 4 * 4

/-- The loop of `parse_binding_response` over the attributes of `message`. -/
def parseAttributes (message : Bytes) (id : TransactionId) :
    Nat → Nat → Except Fault (Option Endpoint)
  | 0, _ => .error .unfinished
  | fuel + 1, offset =>
      if offset + 4 ≤ message.length then do
        let type ← readUint message offset 2
        let length ← readUint message (offset + 2) 2
        if offset + 4 + length > message.length then .ok none
        else do
          let value ← slice message (offset + 4) length
          let found ← decodeAttribute type value id
          if found.isSome then .ok found
          else parseAttributes message id fuel (align4 (offset + 4 + length))
      else .ok none

/-- `parse_binding_response`: no address for anything that is not the response
to this request. -/
def parseBindingResponse (packet : Bytes) (id : TransactionId) : Except Fault (Option Endpoint) :=
  if packet.length < kHeaderSize then .ok none
  else do
    let messageType ← readUint packet 0 2
    if messageType &&& 0xC000 ≠ 0 then .ok none
    else if messageType ≠ kBindingSuccessResponse then .ok none
    else do
      let messageLength ← readUint packet 2 2
      if kHeaderSize + messageLength > packet.length then .ok none
      else do
        let cookie ← readUint packet 4 4
        if cookie ≠ kMagicCookie then .ok none
        else do
          let theirs ← slice packet 8 12
          if theirs ≠ id.toList then .ok none
          else do
            let message ← slice packet 0 (kHeaderSize + messageLength)
            parseAttributes message id packet.length kHeaderSize

/-! ## No fault

Each read is within its span, whatever the packet. -/

/-- The bytes of a span, where they are. -/
def field (span : Bytes) (offset count : Nat) : Bytes := (span.drop offset).take count

section Reads

variable {span : Bytes} {offset count : Nat}

theorem slice_ok (h : offset + count ≤ span.length) :
    slice span offset count = .ok (field span offset count) := by
  rw [slice, if_pos h, field]

theorem readUint_ok (h : offset + count ≤ span.length) :
    readUint span offset count = .ok (beVal (field span offset count)) := by
  rw [readUint, slice_ok h]
  rfl

end Reads

/-- Every value decodes or does not. -/
theorem decodeXorMappedAddress_ok (value : Bytes) (id : TransactionId) :
    ∃ r, decodeXorMappedAddress value id = .ok r := by
  unfold decodeXorMappedAddress
  split
  · exact ⟨_, rfl⟩
  rename_i hfour
  rw [readUint_ok (by omega), readUint_ok (by omega)]
  dsimp only [Except.bind, bind]
  split
  · split
    · exact ⟨_, rfl⟩
    · rw [readUint_ok (by omega)]
      exact ⟨_, rfl⟩
  · split
    · split
      · exact ⟨_, rfl⟩
      · rw [slice_ok (by omega)]
        exact ⟨_, rfl⟩
    · exact ⟨_, rfl⟩

theorem decodeMappedAddress_ok (value : Bytes) : ∃ r, decodeMappedAddress value = .ok r := by
  unfold decodeMappedAddress
  split
  · exact ⟨_, rfl⟩
  rename_i hfour
  rw [readUint_ok (by omega), readUint_ok (by omega)]
  dsimp only [Except.bind, bind]
  split
  · split
    · exact ⟨_, rfl⟩
    · rw [slice_ok (by omega)]
      exact ⟨_, rfl⟩
  · split
    · split
      · exact ⟨_, rfl⟩
      · rw [slice_ok (by omega)]
        exact ⟨_, rfl⟩
    · exact ⟨_, rfl⟩

theorem decodeAttribute_ok (type : Nat) (value : Bytes) (id : TransactionId) :
    ∃ r, decodeAttribute type value id = .ok r := by
  have hfirst : ∃ r, (if type = kXorMappedAddress then decodeXorMappedAddress value id
      else .ok none) = Except.ok r := by
    split
    · exact decodeXorMappedAddress_ok value id
    · exact ⟨none, rfl⟩
  obtain ⟨fromXor, hfromXor⟩ := hfirst
  rw [decodeAttribute, hfromXor]
  dsimp only [Except.bind]
  split
  · exact ⟨_, rfl⟩
  · split
    · exact decodeMappedAddress_ok value
    · exact ⟨_, rfl⟩

/-- The loop comes to its end: every turn moves the offset by at least four. -/
theorem parseAttributes_ok (message : Bytes) (id : TransactionId) (fuel offset : Nat)
    (hpos : 0 < fuel) (hfuel : message.length < offset + fuel) :
    ∃ r, parseAttributes message id fuel offset = .ok r := by
  induction fuel generalizing offset with
  | zero => cases hpos
  | succ fuel ih =>
      unfold parseAttributes
      split
      · rename_i hroom
        rw [readUint_ok (by omega), readUint_ok (by omega)]
        dsimp only [Except.bind, bind]
        split
        · exact ⟨_, rfl⟩
        · rename_i hvalue
          obtain ⟨found, hfound⟩ := decodeAttribute_ok (beVal (field message offset 2))
            (field message (offset + 4) (beVal (field message (offset + 2) 2))) id
          rw [slice_ok (by omega)]
          dsimp only [Except.bind, bind]
          rw [hfound]
          dsimp only
          split
          · exact ⟨_, rfl⟩
          · apply ih
            · omega
            · unfold align4
              omega
      · exact ⟨_, rfl⟩

/-- What the header decides, with the reads done. -/
theorem parseBindingResponse_eq {packet : Bytes} (hlen : kHeaderSize ≤ packet.length)
    (id : TransactionId) :
    parseBindingResponse packet id =
      if beVal (field packet 0 2) &&& 0xC000 ≠ 0 then .ok none
      else if beVal (field packet 0 2) ≠ kBindingSuccessResponse then .ok none
      else if kHeaderSize + beVal (field packet 2 2) > packet.length then .ok none
      else if beVal (field packet 4 4) ≠ kMagicCookie then .ok none
      else if field packet 8 12 ≠ id.toList then .ok none
      else parseAttributes (packet.take (kHeaderSize + beVal (field packet 2 2))) id packet.length
        kHeaderSize := by
  have hheader : (20 : Nat) ≤ packet.length := hlen
  unfold parseBindingResponse
  rw [if_neg (Nat.not_lt.mpr hlen), readUint_ok (by omega), readUint_ok (by omega),
    readUint_ok (by omega), slice_ok (by omega)]
  dsimp only [Except.bind, bind]
  split
  · rfl
  split
  · rfl
  split
  · rfl
  rename_i hroom
  split
  · rfl
  split
  · rfl
  rw [slice_ok (by omega)]
  dsimp only
  rw [field, List.drop_zero]

/-- Whatever arrives, the parser comes to an end without leaving the packet. -/
theorem parseBindingResponse_ok (packet : Bytes) (id : TransactionId) :
    ∃ r, parseBindingResponse packet id = .ok r := by
  by_cases hlen : kHeaderSize ≤ packet.length
  · rw [parseBindingResponse_eq hlen]
    split
    · exact ⟨_, rfl⟩
    split
    · exact ⟨_, rfl⟩
    split
    · exact ⟨_, rfl⟩
    split
    · exact ⟨_, rfl⟩
    split
    · exact ⟨_, rfl⟩
    have hpos : 0 < kHeaderSize := Nat.zero_lt_succ _
    apply parseAttributes_ok
    · omega
    · rw [List.length_take]
      omega
  · rw [parseBindingResponse, if_pos (Nat.lt_of_not_le hlen)]
    exact ⟨_, rfl⟩

/-! ## Messages as the specification writes them

Headers, attributes with their padding, and the two kinds of address, written
and not read. -/

/-- A message: its type, the length it declares, the cookie, the transaction and
the body. -/
def message (type length cookie : Nat) (id : TransactionId) (body : Bytes) : Bytes :=
  beBytes 2 type ++ beBytes 2 length ++ beBytes 4 cookie ++ id.toList ++ body

/-- A well-formed attribute: any padding up to the next multiple of four. -/
structure Attribute where
  type : Nat
  value : Bytes
  padding : Bytes := []
  type_lt : type < 2 ^ 16
  length_lt : value.length < 2 ^ 16
  aligned : (value.length + padding.length) % 4 = 0
  short : padding.length < 4

/-- The attribute on the wire. -/
def Attribute.bytes (a : Attribute) : Bytes :=
  beBytes 2 a.type ++ beBytes 2 a.value.length ++ a.value ++ a.padding

/-- The family code of the attribute, not the one of `IpAddr`. -/
def familyCode : Family → UInt8
  | .v4 => 1
  | .v6 => 2

/-- The address combined with the cookie, and with the transaction for IPv6. -/
def xorAddress (id : TransactionId) (ip : IpAddr) : Bytes :=
  xorBytes (ip.bytes.toList.take ip.addrLen) (mask6 id)

/-- The value of XOR-MAPPED-ADDRESS. -/
def xorValue (id : TransactionId) (ep : Endpoint) : Bytes :=
  [0, familyCode ep.ip.family] ++ beBytes 2 (ep.port ^^^ (kMagicCookie >>> 16)) ++
    xorAddress id ep.ip

theorem length_xorAddress (id : TransactionId) (ip : IpAddr) :
    (xorAddress id ip).length = ip.addrLen := by
  have hle := ip.addrLen_le
  rw [xorAddress, length_xorBytes, ip.length_take, mask6, List.length_append, length_beBytes,
    Vector.length_toList]
  omega

theorem length_xorValue (id : TransactionId) (ep : Endpoint) :
    (xorValue id ep).length = 4 + ep.ip.addrLen := by
  rw [xorValue, List.length_append, List.length_append, length_beBytes, length_xorAddress]
  rfl

theorem addrLen_mod (ip : IpAddr) : ip.addrLen % 4 = 0 := by
  unfold IpAddr.addrLen
  split <;> rfl

theorem kXorMappedAddress_lt : kXorMappedAddress < 2 ^ 16 := by decide

theorem length_xorValue_lt (id : TransactionId) (ep : Endpoint) :
    (xorValue id ep).length < 2 ^ 16 := by
  have hle := ep.ip.addrLen_le
  rw [length_xorValue]
  omega

theorem xorValue_aligned (id : TransactionId) (ep : Endpoint) :
    ((xorValue id ep).length + ([] : Bytes).length) % 4 = 0 := by
  have hmod := addrLen_mod ep.ip
  rw [length_xorValue, List.length_nil]
  omega

theorem length_nil_lt : ([] : Bytes).length < 4 := by decide

/-- The attribute that carries `ep`. -/
def xorAttribute (id : TransactionId) (ep : Endpoint) : Attribute where
  type := kXorMappedAddress
  value := xorValue id ep
  type_lt := kXorMappedAddress_lt
  length_lt := length_xorValue_lt id ep
  aligned := xorValue_aligned id ep
  short := length_nil_lt

/-! ## Fields of a message

The reads of the parser, on a message written that way. -/

theorem field_left {pre mid post : Bytes} {offset count : Nat} (hpre : pre.length = offset)
    (hmid : mid.length = count) : field (pre ++ mid ++ post) offset count = mid := by
  rw [field, List.append_assoc, List.drop_left' hpre, List.take_left' hmid]

/-- The port comes back. -/
theorem port_xor (port : Nat) :
    beVal (beBytes 2 (port ^^^ (kMagicCookie >>> 16))) ^^^ (kMagicCookie >>> 16) = port % 65536 := by
  have hpow : (256 : Nat) ^ 2 = 2 ^ 16 := rfl
  have hcookie : (kMagicCookie >>> 16) % 2 ^ 16 = kMagicCookie >>> 16 := rfl
  rw [beVal_beBytes, hpow, Nat.xor_mod_two_pow, hcookie, Nat.xor_assoc, Nat.xor_self, Nat.xor_zero]

/-- An IPv4 address comes back. -/
theorem address_xor {bytes : Bytes} (id : TransactionId) (hlen : bytes.length = 4) :
    beBytes 4 (beVal (xorBytes bytes (mask6 id)) ^^^ kMagicCookie) = bytes := by
  have hcut : bytes.length = (beBytes 4 kMagicCookie).length := by rw [hlen, length_beBytes]
  have hsize : (xorBytes bytes (beBytes 4 kMagicCookie)).length = 4 := by
    rw [length_xorBytes, hlen, length_beBytes]
    rfl
  have hback := beBytes_beVal (xorBytes bytes (beBytes 4 kMagicCookie))
  rw [hsize] at hback
  rw [mask6, xorBytes_append hcut, beBytes_xor, hback, xorBytes_xorBytes (Nat.le_of_eq hcut)]

/-- What the encoding says is what the decoder reads. -/
theorem decodeXorMappedAddress_xorValue (id : TransactionId) (ep : Endpoint) :
    decodeXorMappedAddress (xorValue id ep) id = .ok (some ep.normal) := by
  have hlen := length_xorValue id ep
  have hfamily : field (xorValue id ep) 1 1 = [familyCode ep.ip.family] := rfl
  have hport : field (xorValue id ep) 2 2 = beBytes 2 (ep.port ^^^ (kMagicCookie >>> 16)) :=
    field_left rfl (length_beBytes _ _)
  unfold decodeXorMappedAddress
  rw [if_neg (by omega), readUint_ok (by omega), readUint_ok (by omega), hfamily, hport]
  dsimp only [Except.bind, bind]
  rw [port_xor]
  have haddress : field (xorValue id ep) 4 ep.ip.addrLen = xorAddress id ep.ip := by
    have hall : xorValue id ep = [0, familyCode ep.ip.family] ++
        beBytes 2 (ep.port ^^^ (kMagicCookie >>> 16)) ++ xorAddress id ep.ip ++ [] :=
      (List.append_nil _).symm
    rw [hall]
    exact field_left rfl (length_xorAddress id ep.ip)
  have hbytes := ep.ip.length_take
  cases hfam : ep.ip.family with
  | v4 =>
      have haddrLen : ep.ip.addrLen = 4 := by rw [IpAddr.addrLen, hfam]
      rw [haddrLen] at hlen haddress hbytes
      have hcode : beVal [familyCode .v4] = 0x01 := rfl
      rw [if_pos hcode, if_neg (by omega), readUint_ok (by omega), haddress]
      dsimp only
      rw [xorAddress, haddrLen, address_xor id hbytes, Endpoint.normal, IpAddr.normal, haddrLen,
        ipV4, hfam]
  | v6 =>
      have haddrLen : ep.ip.addrLen = 16 := by rw [IpAddr.addrLen, hfam]
      rw [haddrLen] at hlen haddress hbytes
      have hcode : beVal [familyCode .v6] = 0x02 := rfl
      rw [hcode, if_neg (by omega), if_pos rfl, if_neg (by omega), slice_ok (by omega), haddress]
      dsimp only
      have hmask : (ep.ip.bytes.toList.take 16).length ≤ (mask6 id).length := by
        rw [hbytes, mask6, List.length_append, length_beBytes, Vector.length_toList]
      rw [xorAddress, haddrLen, xorBytes_xorBytes hmask, Endpoint.normal, IpAddr.normal, haddrLen,
        ipV6, hfam]

/-! ## The attributes of a message

The walk over attributes that are passed over, up to the one with the address. -/

theorem Attribute.length_bytes (a : Attribute) :
    a.bytes.length = 4 + a.value.length + a.padding.length := by
  rw [Attribute.bytes, List.length_append, List.length_append, List.length_append, length_beBytes,
    length_beBytes]

/-- The next attribute starts where the padding ends. -/
theorem Attribute.align4_end (a : Attribute) {offset : Nat} (hoffset : offset % 4 = 0) :
    align4 (offset + 4 + a.value.length) = offset + a.bytes.length := by
  have haligned := a.aligned
  have hshort := a.short
  rw [a.length_bytes, align4]
  omega

/-- One turn of the loop, at the start of an attribute. -/
theorem parseAttributes_attribute {m pre post : Bytes} {a : Attribute}
    (hm : m = pre ++ a.bytes ++ post) (hpre : pre.length % 4 = 0) (id : TransactionId) (fuel : Nat) :
    parseAttributes m id (fuel + 1) pre.length =
      (decodeAttribute a.type a.value id).bind fun found =>
        if found.isSome then .ok found
        else parseAttributes m id fuel (pre ++ a.bytes).length := by
  have hlen : m.length = pre.length + a.bytes.length + post.length := by
    rw [hm, List.length_append, List.length_append]
  have hbytes := a.length_bytes
  have htype : beVal (field m pre.length 2) = a.type := by
    have hsplit : m = pre ++ beBytes 2 a.type ++
        (beBytes 2 a.value.length ++ a.value ++ a.padding ++ post) := by
      simp only [hm, Attribute.bytes, List.append_assoc]
    rw [hsplit, field_left rfl (length_beBytes _ _)]
    exact beVal_beBytes_of_lt a.type_lt
  have hlength : beVal (field m (pre.length + 2) 2) = a.value.length := by
    have hsplit : m = pre ++ beBytes 2 a.type ++ beBytes 2 a.value.length ++
        (a.value ++ a.padding ++ post) := by
      simp only [hm, Attribute.bytes, List.append_assoc]
    rw [hsplit, field_left (by rw [List.length_append, length_beBytes]) (length_beBytes _ _)]
    exact beVal_beBytes_of_lt a.length_lt
  have hvalue : field m (pre.length + 4) a.value.length = a.value := by
    have hsplit : m = pre ++ beBytes 2 a.type ++ beBytes 2 a.value.length ++ a.value ++
        (a.padding ++ post) := by
      simp only [hm, Attribute.bytes, List.append_assoc]
    rw [hsplit, field_left _ rfl]
    rw [List.length_append, List.length_append, length_beBytes, length_beBytes]
  rw [parseAttributes, if_pos (by omega), readUint_ok (by omega), readUint_ok (by omega), htype,
    hlength]
  dsimp only [Except.bind, bind]
  rw [if_neg (by omega), slice_ok (by omega), hvalue]
  dsimp only
  rw [a.align4_end hpre, List.length_append]

/-- An attribute the loop passes over: not the one it looks for, and no legacy
address. -/
def Attribute.Passed (a : Attribute) : Prop :=
  a.type ≠ kXorMappedAddress ∧
    (a.type = kMappedAddress → decodeMappedAddress a.value = .ok none)

theorem Attribute.Passed.decodeAttribute {a : Attribute} (h : a.Passed) (id : TransactionId) :
    decodeAttribute a.type a.value id = .ok none := by
  rw [Stun.decodeAttribute, if_neg h.1]
  dsimp only [Except.bind]
  rw [if_neg (by decide)]
  split
  · rename_i htype
    exact h.2 htype
  · rfl

theorem decodeAttribute_xorAttribute (id : TransactionId) (ep : Endpoint) :
    decodeAttribute (xorAttribute id ep).type (xorAttribute id ep).value id =
      .ok (some ep.normal) := by
  have htype : (xorAttribute id ep).type = kXorMappedAddress := rfl
  have hvalue : (xorAttribute id ep).value = xorValue id ep := rfl
  rw [decodeAttribute, htype, hvalue, if_pos rfl, decodeXorMappedAddress_xorValue]
  rfl

/-- The loop finds the address behind any attributes it passes over. -/
theorem parseAttributes_xorAttribute (id : TransactionId) (ep : Endpoint) {m : Bytes}
    (attrs : List Attribute) (hpassed : ∀ a ∈ attrs, a.Passed) {pre post : Bytes} {fuel : Nat}
    (hm : m = pre ++ attrs.flatMap Attribute.bytes ++ (xorAttribute id ep).bytes ++ post)
    (hpre : pre.length % 4 = 0) (hfuel : m.length < pre.length + fuel) :
    parseAttributes m id fuel pre.length = .ok (some ep.normal) := by
  induction attrs generalizing pre fuel with
  | nil =>
      rw [List.flatMap_nil, List.append_nil] at hm
      have hlen := congrArg List.length hm
      rw [List.length_append, List.length_append] at hlen
      obtain ⟨fuel, rfl⟩ : ∃ f, fuel = f + 1 := ⟨fuel - 1, by omega⟩
      rw [parseAttributes_attribute hm hpre]
      rw [decodeAttribute_xorAttribute]
      rfl
  | cons a attrs ih =>
      have hm' : m = pre ++ a.bytes ++
          (attrs.flatMap Attribute.bytes ++ (xorAttribute id ep).bytes ++ post) := by
        simp only [hm, List.flatMap_cons, List.append_assoc]
      have hlen := congrArg List.length hm'
      have hbytes := a.length_bytes
      rw [List.length_append, List.length_append] at hlen
      obtain ⟨fuel, rfl⟩ : ∃ f, fuel = f + 1 := ⟨fuel - 1, by omega⟩
      rw [parseAttributes_attribute hm' hpre,
        (hpassed a List.mem_cons_self).decodeAttribute id]
      dsimp only [Except.bind]
      rw [if_neg (by decide)]
      apply ih fun b hb => hpassed b (List.mem_cons_of_mem _ hb)
      · simp only [hm, List.flatMap_cons, List.append_assoc]
      · have haligned := a.aligned
        rw [List.length_append]
        omega
      · rw [List.length_append]
        omega

/-! ## Whole messages

The header, the walk and the address together. -/

section Header

variable (type length cookie : Nat) (id : TransactionId) (body : Bytes)

theorem length_message : (message type length cookie id body).length = kHeaderSize + body.length := by
  simp only [message, List.length_append, length_beBytes, Vector.length_toList]
  rfl

/-- The header is the message without a body. -/
theorem message_eq : message type length cookie id body = message type length cookie id [] ++ body := by
  rw [message, message, List.append_nil]

variable {type length cookie}

theorem message_type (htype : type < 2 ^ 16) :
    beVal (field (message type length cookie id body) 0 2) = type := by
  have hsplit : message type length cookie id body = [] ++ beBytes 2 type ++
      (beBytes 2 length ++ beBytes 4 cookie ++ id.toList ++ body) := by
    simp only [message, List.append_assoc, List.nil_append]
  rw [hsplit, field_left List.length_nil (length_beBytes _ _)]
  exact beVal_beBytes_of_lt htype

theorem message_length (hlength : length < 2 ^ 16) :
    beVal (field (message type length cookie id body) 2 2) = length := by
  have hsplit : message type length cookie id body = beBytes 2 type ++ beBytes 2 length ++
      (beBytes 4 cookie ++ id.toList ++ body) := by
    simp only [message, List.append_assoc]
  rw [hsplit, field_left (length_beBytes _ _) (length_beBytes _ _)]
  exact beVal_beBytes_of_lt hlength

theorem message_cookie (hcookie : cookie < 2 ^ 32) :
    beVal (field (message type length cookie id body) 4 4) = cookie := by
  have hsplit : message type length cookie id body = beBytes 2 type ++ beBytes 2 length ++
      beBytes 4 cookie ++ (id.toList ++ body) := by
    simp only [message, List.append_assoc]
  have hfront : (beBytes 2 type ++ beBytes 2 length).length = 4 := by
    rw [List.length_append, length_beBytes, length_beBytes]
  rw [hsplit, field_left hfront (length_beBytes _ _)]
  exact beVal_beBytes_of_lt hcookie

theorem message_id : field (message type length cookie id body) 8 12 = id.toList := by
  apply field_left
  · simp only [List.length_append, length_beBytes]
  · exact id.length_toList

end Header

/-- A message with another type, cookie or transaction, or that declares more
than it carries, is not read. -/
theorem parseBindingResponse_message_none {type length cookie : Nat} {theirs id : TransactionId}
    {body : Bytes} (htype : type < 2 ^ 16) (hlength : length < 2 ^ 16) (hcookie : cookie < 2 ^ 32)
    (h : type ≠ kBindingSuccessResponse ∨ cookie ≠ kMagicCookie ∨ theirs ≠ id ∨
      body.length < length) :
    parseBindingResponse (message type length cookie theirs body) id = .ok none := by
  have hlen := length_message type length cookie theirs body
  rw [parseBindingResponse_eq (by omega), message_type theirs body htype,
    message_length theirs body hlength, message_cookie theirs body hcookie, message_id, hlen]
  split
  · rfl
  split
  · rfl
  rename_i hsame
  split
  · rfl
  rename_i hroom
  split
  · rfl
  rename_i hmagic
  split
  · rfl
  rename_i hours
  obtain hne | hne | hne | hne := h
  · exact absurd hne hsame
  · exact absurd hne hmagic
  · exact absurd (fun heq => hne (Vector.toList_inj.mp heq)) hours
  · omega

/-- A response is read as the address it carries. -/
theorem parseBindingResponse_message {length : Nat} {id : TransactionId} {ep : Endpoint}
    {attrs : List Attribute} {rest : Bytes} (hpassed : ∀ a ∈ attrs, a.Passed)
    (hlength : length < 2 ^ 16)
    (hlow : (attrs.flatMap Attribute.bytes ++ (xorAttribute id ep).bytes).length ≤ length)
    (hhigh : length ≤
      (attrs.flatMap Attribute.bytes ++ (xorAttribute id ep).bytes ++ rest).length) :
    parseBindingResponse (message kBindingSuccessResponse length kMagicCookie id
      (attrs.flatMap Attribute.bytes ++ (xorAttribute id ep).bytes ++ rest)) id =
        .ok (some ep.normal) := by
  have hlen := length_message kBindingSuccessResponse length kMagicCookie id
    (attrs.flatMap Attribute.bytes ++ (xorAttribute id ep).bytes ++ rest)
  have hheader := length_message kBindingSuccessResponse length kMagicCookie id []
  rw [List.length_nil, Nat.add_zero] at hheader
  have htaken : (message kBindingSuccessResponse length kMagicCookie id
      (attrs.flatMap Attribute.bytes ++ (xorAttribute id ep).bytes ++ rest)).take
        (kHeaderSize + length) =
      message kBindingSuccessResponse length kMagicCookie id [] ++
        attrs.flatMap Attribute.bytes ++ (xorAttribute id ep).bytes ++
        rest.take (length - (attrs.flatMap Attribute.bytes ++ (xorAttribute id ep).bytes).length) := by
    rw [message_eq, ← hheader, List.take_length_add_append, List.take_append,
      List.take_of_length_le hlow, List.append_assoc, List.append_assoc, List.append_assoc]
  have hmasked : ¬ kBindingSuccessResponse &&& 0xC000 ≠ 0 := by decide
  rw [parseBindingResponse_eq (by omega), message_type id _ (by decide),
    message_length id _ hlength, message_cookie id _ (by decide), message_id, if_neg hmasked,
    if_neg (not_not_intro rfl), if_neg (by omega), if_neg (not_not_intro rfl),
    if_neg (not_not_intro rfl), htaken, ← hheader]
  apply parseAttributes_xorAttribute id ep attrs hpassed rfl
  · rw [hheader]
    rfl
  · have hpos : 0 < kHeaderSize := Nat.zero_lt_succ _
    rw [← htaken, List.length_take, hheader]
    omega

/-- The parser never leaves the packet and always ends; a response is read as
the address in its XOR-MAPPED-ADDRESS unless a legacy MAPPED-ADDRESS comes
first; and nothing is read from another message. -/
theorem stun_response :
    (∀ packet id, ∃ r, parseBindingResponse packet id = .ok r) ∧
    (∀ (id : TransactionId) (ep : Endpoint) (attrs : List Attribute) (rest : Bytes) (length : Nat),
      (∀ a ∈ attrs, a.Passed) → length < 2 ^ 16 →
      (attrs.flatMap Attribute.bytes ++ (xorAttribute id ep).bytes).length ≤ length →
      length ≤ (attrs.flatMap Attribute.bytes ++ (xorAttribute id ep).bytes ++ rest).length →
      parseBindingResponse (message kBindingSuccessResponse length kMagicCookie id
        (attrs.flatMap Attribute.bytes ++ (xorAttribute id ep).bytes ++ rest)) id =
          .ok (some ep.normal)) ∧
    ∀ (type length cookie : Nat) (theirs id : TransactionId) (body : Bytes),
      type < 2 ^ 16 → length < 2 ^ 16 → cookie < 2 ^ 32 →
      (type ≠ kBindingSuccessResponse ∨ cookie ≠ kMagicCookie ∨ theirs ≠ id ∨
        body.length < length) →
      parseBindingResponse (message type length cookie theirs body) id = .ok none :=
  ⟨parseBindingResponse_ok,
    fun _ _ _ _ _ hpassed hlength hlow hhigh =>
      parseBindingResponse_message hpassed hlength hlow hhigh,
    fun _ _ _ _ _ _ htype hlength hcookie h =>
      parseBindingResponse_message_none htype hlength hcookie h⟩

/-- SOFTWARE, five bytes and their padding. -/
def sampleSoftware : Attribute where
  type := 0x8022
  value := [115, 116, 117, 110, 100]
  padding := [0, 0, 0]
  type_lt := by decide
  length_lt := by decide
  aligned := by decide
  short := by decide

/-- The address stands behind another attribute, and two bytes behind the
message. -/
theorem stun_response_sample :
    let id : TransactionId := copyInto 12 [1, 2, 3]
    let ep : Endpoint := { ip := ipV4 [5, 6, 7, 8], port := 90 }
    parseBindingResponse (message kBindingSuccessResponse 24 kMagicCookie id
      (sampleSoftware.bytes ++ (xorAttribute id ep).bytes ++ [9, 9])) id = .ok (some ep.normal) := by
  intro id ep
  obtain ⟨-, hread, -⟩ := stun_response
  refine hread id ep [sampleSoftware] [9, 9] 24 (fun a ha => ?_) (by decide) (by decide) (by decide)
  rw [List.mem_singleton.mp ha]
  exact ⟨by decide, fun htype => absurd htype (by decide)⟩

/-- An attribute of another type can hide the address: a legacy MAPPED-ADDRESS
in front of it is returned in its place. -/
theorem legacy_address_first :
    ¬ ∀ (id : TransactionId) (ep : Endpoint) (attrs : List Attribute) (rest : Bytes) (length : Nat),
      (∀ a ∈ attrs, a.type ≠ kXorMappedAddress) → length < 2 ^ 16 →
      (attrs.flatMap Attribute.bytes ++ (xorAttribute id ep).bytes).length ≤ length →
      length ≤ (attrs.flatMap Attribute.bytes ++ (xorAttribute id ep).bytes ++ rest).length →
      parseBindingResponse (message kBindingSuccessResponse length kMagicCookie id
        (attrs.flatMap Attribute.bytes ++ (xorAttribute id ep).bytes ++ rest)) id =
          .ok (some ep.normal) := by
  intro h
  -- 1.2.3.4:80 as MAPPED-ADDRESS, then 5.6.7.8:90 as XOR-MAPPED-ADDRESS
  have hread := h (copyInto 12 []) { ip := ipV4 [5, 6, 7, 8], port := 90 }
    [⟨kMappedAddress, [0, 1, 0, 80, 1, 2, 3, 4], [], by decide, by decide, by decide, by decide⟩]
    [] 24 (fun a ha => by rw [List.mem_singleton.mp ha]; decide) (by decide) (by decide) (by decide)
  have hport := congrArg (Except.toOption · |>.join.map Endpoint.port) hread
  exact absurd hport (by decide +kernel)

end UConnect.Server.Stun
