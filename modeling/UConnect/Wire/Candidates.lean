/-
  Wire/Candidates.lean --- endpoints and candidates on the wire.

  Source: the `endpoint` and `candidate` members of src/wire/buffer.hpp.

  A v4 address is written as the four bytes it uses, so what comes back is the
  value in normal form: the bytes beyond the family's length are zero.
-/
import UConnect.Crypto.Primitives
import UConnect.Wire.Buffer
import UConnect.Wire.Types

set_option autoImplicit false

namespace UConnect

open UConnect.Foundation UConnect.Crypto

/-! ## The bytes of a value

The image of an endpoint and of a candidate, and the value that comes back from
it. -/

/-- The value of a `Family` enumerator. -/
def Family.code : Family → UInt8
  | .v4 => 4
  | .v6 => 6

/-- The enumerator of a byte. -/
def Family.ofCode (b : UInt8) : Option Family :=
  if b = 4 then some .v4 else if b = 6 then some .v6 else none

/-- The value of a `Candidate::Kind` enumerator. -/
def CandidateKind.code : CandidateKind → UInt8
  | .host => 0
  | .srflx => 1
  | .relay => 2

/-- The enumerator of a byte. -/
def CandidateKind.ofCode (b : UInt8) : Option CandidateKind :=
  if b = 0 then some .host else if b = 1 then some .srflx else if b = 2 then some .relay
  else none

@[simp] theorem Family.ofCode_code (f : Family) : ofCode f.code = some f := by
  cases f <;> decide

@[simp] theorem CandidateKind.ofCode_code (k : CandidateKind) : ofCode k.code = some k := by
  cases k <;> decide

/-- The bytes of an endpoint. -/
def Endpoint.image (ep : Endpoint) : Bytes :=
  ep.ip.family.code :: (ep.ip.bytes.toList.take ep.ip.addrLen ++ beBytes 2 ep.port)

/-- The bytes of a candidate. -/
def Candidate.image (c : Candidate) : Bytes := c.kind.code :: c.ep.image

/-- An address without the bytes its family does not use. -/
def IpAddr.normal (ip : IpAddr) : IpAddr :=
  { ip with bytes := copyInto 16 (ip.bytes.toList.take ip.addrLen) }

/-- An endpoint as it comes back off the wire. -/
def Endpoint.normal (ep : Endpoint) : Endpoint :=
  { ip := ep.ip.normal, port := ep.port % 65536 }

/-- A candidate as it comes back off the wire. -/
def Candidate.normal (c : Candidate) : Candidate := { c with ep := c.ep.normal }

theorem IpAddr.addrLen_le (ip : IpAddr) : ip.addrLen ≤ 16 := by
  unfold IpAddr.addrLen
  split <;> omega

/-- The bytes an address is written as. -/
theorem IpAddr.length_take (ip : IpAddr) :
    (ip.bytes.toList.take ip.addrLen).length = ip.addrLen := by
  have h := ip.addrLen_le
  rw [List.length_take, Vector.length_toList]
  omega

theorem Candidate.length_image (c : Candidate) : c.image.length ≤ 20 := by
  have h := c.ep.ip.addrLen_le
  unfold Candidate.image Endpoint.image
  rw [List.length_cons, List.length_cons, List.length_append, IpAddr.length_take,
    length_beBytes]
  omega

/-- The bytes of several candidates. -/
theorem length_flatMap_image (cs : List Candidate) :
    (cs.flatMap Candidate.image).length ≤ 20 * cs.length := by
  induction cs with
  | nil => simp
  | cons c cs ih =>
      have h := c.length_image
      rw [List.flatMap_cons, List.length_append, List.length_cons]
      omega

namespace Wire

/-! ## Writing

The members of `Writer` that are built from the others. -/

namespace Writer

/-- `array`: the bytes of an identifier, with no length in front. -/
def array {n : Nat} (w : Writer) (a : Vector UInt8 n) : Writer := w.bytes a.toList

/-- `endpoint`: the family, the bytes of the address it uses, and the port. -/
def endpoint (w : Writer) (ep : Endpoint) : Writer :=
  ((w.u8 ep.ip.family.code).bytes (ep.ip.bytes.toList.take ep.ip.addrLen)).u16 ep.port

/-- `candidate`: the kind and the endpoint. -/
def candidate (w : Writer) (c : Candidate) : Writer := (w.u8 c.kind.code).endpoint c.ep

/-- A loop of `candidate`. -/
def candidates (w : Writer) (cs : List Candidate) : Writer := cs.foldl candidate w

/-- A write where there is room. -/
theorem bytes_mk {capacity : Nat} {xs bs : Bytes} (h : xs.length + bs.length ≤ capacity) :
    (Writer.mk capacity xs true).bytes bs = ⟨capacity, xs ++ bs, true⟩ :=
  bytes_of_room rfl h

theorem candidate_mk {capacity : Nat} {xs : Bytes} {c : Candidate}
    (h : xs.length + c.image.length ≤ capacity) :
    (Writer.mk capacity xs true).candidate c = ⟨capacity, xs ++ c.image, true⟩ := by
  simp only [Candidate.image, Endpoint.image, List.length_cons, List.length_append] at h
  unfold candidate endpoint u8 u16
  rw [bytes_mk (by simp; omega), bytes_mk (by simp; omega), bytes_mk (by simp at *; omega),
    bytes_mk (by simp at *; omega)]
  simp [Candidate.image, Endpoint.image]

/-- Candidates where there is room for all of them. -/
theorem candidates_mk {capacity : Nat} {cs : List Candidate} {xs : Bytes}
    (h : xs.length + (cs.flatMap Candidate.image).length ≤ capacity) :
    (Writer.mk capacity xs true).candidates cs =
      ⟨capacity, xs ++ cs.flatMap Candidate.image, true⟩ := by
  induction cs generalizing xs with
  | nil => simp [candidates]
  | cons c cs ih =>
      rw [List.flatMap_cons, List.length_append] at h
      have hrest := @ih (xs ++ c.image) (by rw [List.length_append]; omega)
      rw [List.flatMap_cons, ← List.append_assoc, ← hrest,
        ← candidate_mk (by omega : xs.length + c.image.length ≤ capacity)]
      rfl

end Writer

/-! ## Reading

The members of `Reader` that are built from the others. -/

namespace Reader

/-- `array`: as many bytes as the identifier has. -/
def array (n : Nat) (r : Reader) : Vector UInt8 n × Reader :=
  let (bs, r) := r.bytes n
  (copyInto n bs, r)

/-- `endpoint`; past the end `bytes` yields nothing and the address stays zero. -/
def endpoint (r : Reader) : Endpoint × Reader :=
  let (fam, r) := r.u8
  match Family.ofCode fam with
  | none => ({}, { r with ok := false })
  | some family =>
      let (a, r) := r.bytes (IpAddr.addrLen { family := family })
      let (port, r) := r.u16
      ({ ip := { family := family, bytes := copyInto 16 a }, port := port }, r)

/-- `candidate`: a kind the enumeration does not have latches the flag. -/
def candidate (r : Reader) : Candidate × Reader :=
  let (k, r) := r.u8
  match CandidateKind.ofCode k with
  | none => ({}, { r with ok := false })
  | some kind =>
      let (ep, r) := r.endpoint
      ({ kind := kind, ep := ep }, r)

/-- A loop of `n` times `candidate`. -/
def candidates : Nat → Reader → List Candidate × Reader
  | 0, r => ([], r)
  | n + 1, r =>
      let (c, r) := r.candidate
      let (cs, r) := candidates n r
      (c :: cs, r)

theorem array_append {n : Nat} (a : Vector UInt8 n) (rest : Bytes) :
    ({ rest := a.toList ++ rest } : Reader).array n = (a, { rest := rest }) := by
  have h := bytes_append a.toList rest
  rw [Vector.length_toList] at h
  rw [array, h]
  exact Prod.ext (copyInto_toList a) rfl

/-- An endpoint is read back in normal form, and nothing beyond it. -/
theorem endpoint_append (ep : Endpoint) (rest : Bytes) :
    ({ rest := ep.image ++ rest } : Reader).endpoint = (ep.normal, { rest := rest }) := by
  obtain ⟨⟨family, bs⟩, port⟩ := ep
  have haddr := bytes_append (bs.toList.take (IpAddr.addrLen ⟨family, bs⟩))
    (beBytes 2 port ++ rest)
  rw [IpAddr.length_take ⟨family, bs⟩] at haddr
  have hport : ({ rest := beBytes 2 port ++ rest } : Reader).u16 =
      (port % 65536, { rest := rest }) := by
    have h := bytes_append (beBytes 2 port) rest
    rw [length_beBytes] at h
    rw [u16, uint, h]
    exact Prod.ext (beVal_beBytes 2 port) rfl
  have hlen : IpAddr.addrLen { family := family } = IpAddr.addrLen ⟨family, bs⟩ := rfl
  unfold endpoint Endpoint.image
  rw [List.cons_append, List.append_assoc, u8_cons]
  simp only [Family.ofCode_code, hlen, haddr, hport]
  rfl

theorem candidate_append (c : Candidate) (rest : Bytes) :
    ({ rest := c.image ++ rest } : Reader).candidate = (c.normal, { rest := rest }) := by
  unfold candidate Candidate.image
  rw [List.cons_append, u8_cons]
  simp only [CandidateKind.ofCode_code, endpoint_append]
  rfl

theorem candidates_append (cs : List Candidate) (rest : Bytes) :
    ({ rest := cs.flatMap Candidate.image ++ rest } : Reader).candidates cs.length =
      (cs.map Candidate.normal, { rest := rest }) := by
  induction cs with
  | nil => rfl
  | cons c cs ih =>
      rw [List.flatMap_cons, List.append_assoc, List.length_cons, candidates, candidate_append]
      simp only [ih, List.map_cons]

end Reader

end Wire

end UConnect
