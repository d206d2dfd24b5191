/-
  Node/Payloads.lean --- the payloads a node puts into other protocols'
  messages.

  Source: the anonymous namespace of src/api/node.cpp.

  An introduction travels in a CONNECT message the server relays without reading
  it; a datagram offer and a datagram close are bodies of records on the TCP
  session.  `encode_dgram_offer` does not look at the writer's flag, and need
  not: its buffer always has room (`encodeDgramOffer_eq`).
-/
import UConnect.Session.TcpSession
import UConnect.Wire.Candidates

set_option autoImplicit false

namespace UConnect.Node

open UConnect.Foundation UConnect.Wire

/-! ## Introductions

The topic, the attempt and the candidates of the one who connects. -/

/-- `encode_intro`; nothing if it does not fit. -/
def encodeIntro (topic : TopicId) (attempt : AttemptNonce) (cands : List Candidate) : Bytes :=
  let n := min cands.length kMaxCandidates
  let w : Writer := { capacity := kMaxRelayPayload }
  let w := (((w.array topic).array attempt).u8 (UInt8.ofNat n)).candidates (cands.take n)
  if !w.ok then [] else w.written

/-- `decode_intro`.  Bytes behind the candidates are not looked at. -/
def decodeIntro (p : Bytes) : Option (TopicId × AttemptNonce × List Candidate) :=
  let (topic, r) := ({ rest := p } : Reader).array 16
  let (attempt, r) := r.array kAttemptLen
  let (n, r) := r.u8
  if !r.ok || n.toNat > kMaxCandidates then none
  else
    let (cands, r) := r.candidates n.toNat
    if r.ok then some (topic, attempt, cands) else none

/-! ## Datagram offers

The epoch, the schedule and the candidates of a channel. -/

/-- `encode_dgram_offer`, with the candidates cut at the cap. -/
def encodeDgramOffer (epoch : Nat) (rekeyShift : Nat) (cands : List Candidate) : Bytes :=
  let n := min cands.length kMaxCandidates
  let w : Writer := { capacity := 512 }
  let w := (((w.u32 epoch).u8 (UInt8.ofNat rekeyShift)).u8 (UInt8.ofNat n)).candidates
    (cands.take n)
  w.written

/-- `decode_dgram_offer`.  Unlike an introduction an offer must end with its
candidates, and its schedule must be one a session accepts. -/
def decodeDgramOffer (p : Bytes) : Option (Nat × Nat × List Candidate) :=
  let (epoch, r) := ({ rest := p } : Reader).u32
  let (rekeyShift, r) := r.u8
  let (n, r) := r.u8
  if !r.ok || n.toNat > kMaxCandidates || rekeyShift < 7 || rekeyShift > 63 then none
  else
    let (cands, r) := r.candidates n.toNat
    if r.ok && r.remaining = 0 then some (epoch, rekeyShift.toNat, cands) else none

/-! ## Epochs by themselves

The body of a close. -/

/-- `encode_u32`, the more significant byte first. -/
def encodeU32 (v : Nat) : Bytes := beBytes 4 v

/-- `decode_u32`: the first four bytes; more may follow. -/
def decodeU32 (p : Bytes) : Option Nat :=
  if p.length < 4 then none else some (beVal (p.take 4))

/-! ## Round trips

What either encoder writes is read back, but for what its caps have cut. -/

/-- The candidates an encoder writes. -/
theorem take_min_length (cands : List Candidate) (n : Nat) :
    cands.take (min cands.length n) = cands.take n := by
  rcases Nat.le_total cands.length n with h | h
  · rw [Nat.min_eq_left h, List.take_length, List.take_of_length_le h]
  · rw [Nat.min_eq_right h]

/-- The count an encoder writes is the number of candidates behind it. -/
theorem toNat_count (cands : List Candidate) :
    (UInt8.ofNat (min cands.length kMaxCandidates)).toNat =
      (cands.take kMaxCandidates).length := by
  have hmin : min cands.length kMaxCandidates ≤ 8 := Nat.min_le_right _ _
  rw [List.length_take, Nat.min_comm kMaxCandidates]
  exact UInt8.toNat_ofNat_of_lt' (by simp only [UInt8.size]; omega)

/-- The bytes of an introduction. -/
theorem encodeIntro_eq (topic : TopicId) (attempt : AttemptNonce) (cands : List Candidate) :
    encodeIntro topic attempt cands = topic.toList ++ (attempt.toList ++
      (UInt8.ofNat (min cands.length kMaxCandidates) ::
        (cands.take kMaxCandidates).flatMap Candidate.image)) := by
  have hcands := length_flatMap_image (cands.take kMaxCandidates)
  have hlen : (cands.take kMaxCandidates).length ≤ 8 := List.length_take_le _ _
  have htopic : topic.toList.length = 16 := topic.length_toList
  have hattempt : attempt.toList.length = 16 := attempt.length_toList
  unfold encodeIntro Writer.array Writer.u8 kMaxRelayPayload
  simp only [take_min_length]
  rw [Writer.bytes_mk (by simp), Writer.bytes_mk (by simp), Writer.bytes_mk (by simp),
    Writer.candidates_mk]
  · simp
  · simp only [List.length_append, List.length_cons, List.length_nil]
    omega

/-- An introduction comes back as it was sent. -/
theorem decodeIntro_encodeIntro (topic : TopicId) (attempt : AttemptNonce)
    (cands : List Candidate) :
    decodeIntro (encodeIntro topic attempt cands) =
      some (topic, attempt, (cands.take kMaxCandidates).map Candidate.normal) := by
  have hcands := Reader.candidates_append (cands.take kMaxCandidates) []
  rw [List.append_nil] at hcands
  rw [encodeIntro_eq, decodeIntro, Reader.array_append]
  simp only [kAttemptLen, Reader.array_append, Reader.u8_cons, toNat_count, hcands]
  rw [if_neg (by simp [kMaxCandidates]), if_pos trivial]

/-- The bytes of an offer. -/
theorem encodeDgramOffer_eq (epoch rekeyShift : Nat) (cands : List Candidate) :
    encodeDgramOffer epoch rekeyShift cands = beBytes 4 epoch ++
      (UInt8.ofNat rekeyShift :: UInt8.ofNat (min cands.length kMaxCandidates) ::
        (cands.take kMaxCandidates).flatMap Candidate.image) := by
  have hcands := length_flatMap_image (cands.take kMaxCandidates)
  have hlen : (cands.take kMaxCandidates).length ≤ 8 := List.length_take_le _ _
  unfold encodeDgramOffer Writer.u32 Writer.u8
  simp only [take_min_length]
  rw [Writer.bytes_mk (by simp), Writer.bytes_mk (by simp), Writer.bytes_mk (by simp),
    Writer.candidates_mk]
  · simp
  · simp only [List.length_append, List.length_cons, List.length_nil, length_beBytes]
    omega

/-- An offer is short. -/
theorem length_encodeDgramOffer (epoch rekeyShift : Nat) (cands : List Candidate) :
    (encodeDgramOffer epoch rekeyShift cands).length ≤ 166 := by
  have hcands := length_flatMap_image (cands.take kMaxCandidates)
  have hlen : (cands.take kMaxCandidates).length ≤ 8 := List.length_take_le _ _
  rw [encodeDgramOffer_eq]
  simp only [List.length_append, List.length_cons, length_beBytes]
  omega

/-- An offer with a shift in range comes back as it was sent. -/
theorem decodeDgramOffer_encodeDgramOffer {epoch rekeyShift : Nat} (hepoch : epoch < 2 ^ 32)
    (hshift : 7 ≤ rekeyShift ∧ rekeyShift ≤ 63) (cands : List Candidate) :
    decodeDgramOffer (encodeDgramOffer epoch rekeyShift cands) =
      some (epoch, rekeyShift, (cands.take kMaxCandidates).map Candidate.normal) := by
  have hval : (UInt8.ofNat rekeyShift).toNat = rekeyShift :=
    UInt8.toNat_ofNat_of_lt' (by simp only [UInt8.size]; omega)
  have hlow : ¬ UInt8.ofNat rekeyShift < 7 := by
    rw [UInt8.lt_iff_toNat_lt, hval]
    simp only [UInt8.reduceToNat]
    omega
  have hhigh : ¬ UInt8.ofNat rekeyShift > 63 := by
    rw [gt_iff_lt, UInt8.lt_iff_toNat_lt, hval]
    simp only [UInt8.reduceToNat]
    omega
  have hcands := Reader.candidates_append (cands.take kMaxCandidates) []
  rw [List.append_nil] at hcands
  rw [encodeDgramOffer_eq, decodeDgramOffer, Reader.u32,
    Reader.uint_append (by simpa using hepoch)]
  simp only [Reader.u8_cons, toNat_count, hcands, hval]
  rw [if_neg (by simp [kMaxCandidates, hlow, hhigh]),
    if_pos (by simp [Reader.remaining])]

/-- What is read of an offer's epoch has 32 bits. -/
theorem epoch_lt_of_decodeDgramOffer {p : Bytes} {epoch shift : Nat} {cands : List Candidate}
    (h : decodeDgramOffer p = some (epoch, shift, cands)) : epoch < 2 ^ 32 := by
  have hlen : (({ rest := p } : Reader).bytes 4).1.length ≤ 4 := by
    unfold Reader.bytes
    split
    · exact List.length_take_le _ _
    · exact Nat.zero_le _
  have hread : (({ rest := p } : Reader).u32).1 < 256 ^ 4 :=
    Nat.lt_of_lt_of_le (beVal_lt _) (Nat.pow_le_pow_right (by decide) hlen)
  unfold decodeDgramOffer at h
  simp only at h
  split at h
  · cases h
  split at h
  · cases h
    exact hread
  · cases h

/-- A close names the epoch it was sent for. -/
theorem decodeU32_encodeU32 {v : Nat} (h : v < 2 ^ 32) : decodeU32 (encodeU32 v) = some v := by
  unfold decodeU32 encodeU32
  rw [length_beBytes, if_neg (Nat.lt_irrefl 4), List.take_of_length_le (by simp),
    beVal_beBytes_of_lt (by simpa using h)]

end UConnect.Node
