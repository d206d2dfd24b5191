/-
  Wire/Types.lean --- the value types every layer shares.

  Source: include/uconnect/types.hpp, with the message bodies of
  src/wire/messages.hpp and src/wire/control.hpp that the server's state reads.

  `std::array<uint8_t, N>` is `Vector UInt8 N`, so an identifier of the wrong
  length cannot be built.  Instants and durations are integers counting
  nanoseconds, the clock's tick; the code's milliseconds and seconds convert to
  it exactly, and no modelled function reads a clock.
-/
import UConnect.Foundation.Bytes

set_option autoImplicit false

namespace UConnect

open UConnect.Foundation

/-! ## Identifiers and time

Identifiers have a fixed length and are compared byte by byte.  Time is counted
in ticks of a clock nobody in the model reads: it comes in as an argument. -/

/-- `topic_id`: 16 public bytes. -/
abbrev TopicId := Vector UInt8 16
/-- `dev_id`: 16 bytes, derived by the server per topic and address. -/
abbrev DevId := Vector UInt8 16

/-- A monotonic instant; `Instant{}` is zero. -/
abbrev Instant := Int
/-- A length of time, in the same unit. -/
abbrev Duration := Int

/-- `std::chrono::milliseconds`, in nanoseconds. -/
def milliseconds (n : Nat) : Duration := n * 1000000
/-- `std::chrono::seconds`, in nanoseconds. -/
def seconds (n : Nat) : Duration := n * 1000000000

/-! ## Addresses

An address has sixteen bytes whatever its family; an IPv4 address uses the first
four.  The source compares addresses by the bytes they use, while a defaulted
comparison of records looks at all of them, so the two are kept apart: `same` is
`operator==`, and `=` is equality. -/

/-- `IpAddr::Family`, whose values on the wire are 4 and 6. -/
inductive Family where
  | v4
  | v6
  deriving DecidableEq, Repr, Inhabited

/-- An address; a v4 one occupies the first four bytes. -/
structure IpAddr where
  family : Family := .v4
  bytes : Vector UInt8 16 := Vector.replicate 16 0
  deriving DecidableEq, Inhabited

/-- The number of bytes the family uses. -/
def IpAddr.addrLen (ip : IpAddr) : Nat :=
  match ip.family with
  | .v4 => 4
  | .v6 => 16

/-- `is_loopback`: 127/8 and ::1. -/
def IpAddr.isLoopback (ip : IpAddr) : Bool :=
  match ip.family with
  | .v4 => ip.bytes.toList.head? == some 127
  | .v6 => ip.bytes.toList == List.replicate 15 0 ++ [1]

/-- `is_link_local`: 169.254/16 and fe80::/10. -/
def IpAddr.isLinkLocal (ip : IpAddr) : Bool :=
  match ip.family with
  | .v4 => ip.bytes[0] == 169 && ip.bytes[1] == 254
  | .v6 => ip.bytes[0] == 0xFE && ip.bytes[1] &&& 0xC0 == 0x80

/-- `is_private`: link-local, 10/8, 192.168/16, 172.16/12 and 100.64/10, and
fc00::/7. -/
def IpAddr.isPrivate (ip : IpAddr) : Bool :=
  ip.isLinkLocal ||
    match ip.family with
    | .v4 =>
        ip.bytes[0] == 10 || (ip.bytes[0] == 192 && ip.bytes[1] == 168) ||
          (ip.bytes[0] == 172 && ip.bytes[1] &&& 0xF0 == 16) ||
          (ip.bytes[0] == 100 && ip.bytes[1] &&& 0xC0 == 64)
    | .v6 => ip.bytes[0] &&& 0xFE == 0xFC

/-- `operator==`: the family and the bytes it uses. -/
def IpAddr.same (a b : IpAddr) : Bool :=
  a.family == b.family && a.bytes.toList.take a.addrLen == b.bytes.toList.take a.addrLen

/-- A transport address. -/
structure Endpoint where
  ip : IpAddr := {}
  port : Nat := 0
  deriving DecidableEq, Inhabited

/-- `operator==`: the port, and the address by the bytes its family uses. -/
def Endpoint.same (a b : Endpoint) : Bool :=
  a.port == b.port && a.ip.same b.ip

/-- `Candidate::Kind`: an address of the device itself, one a server has seen,
or a relay's. -/
inductive CandidateKind where
  | host
  | srflx
  | relay
  deriving DecidableEq, Repr, Inhabited

/-- Where a peer may be dialed. -/
structure Candidate where
  kind : CandidateKind := .host
  ep : Endpoint := {}
  deriving DecidableEq, Inhabited

/-! ## Topic mode and errors

The enumerations that messages and the interface share; their values are in
Wire/Control. -/

/-- `TopicMode`: with or without a pre-shared key. -/
inductive TopicMode where
  | «open»
  | keyed
  deriving DecidableEq, Repr, Inhabited

/-- `ErrorCode`: what a request was refused for. -/
inductive ErrorCode where
  | none
  | badRequest
  | badAuth
  | notFound
  | rateLimited
  | quotaExceeded
  | needCookie
  | unsupported
  deriving DecidableEq, Repr, Inhabited

/-! ## Protocol constants

The caps of the format.  What an encoder is given beyond them it cuts, what a
decoder finds beyond them it refuses. -/

/-- `wire::kMaxDatagram`, the largest datagram that is ever sent. -/
def kMaxDatagram : Nat := 1200
/-- `wire::kMaxMeta`, the most metadata a record has. -/
def kMaxMeta : Nat := 256
/-- `wire::kMaxRelayPayload`, the most an introduction carries. -/
def kMaxRelayPayload : Nat := 512
/-- `wire::kMaxCandidates`, the most addresses a record has. -/
def kMaxCandidates : Nat := 8
/-- `wire::kLookupDefault`, what a lookup that names no number gets. -/
def kLookupDefault : Nat := 30
/-- `wire::kLookupMax`, the most a lookup gets. -/
def kLookupMax : Nat := 100

/-! ## Message bodies the server's state reads

Their encoders and decoders are in Wire/Control; they stand here because the
registry is about them and knows nothing of bytes. -/

/-- `ctl::Register`, a request for a record.  `unlisted` travels as a flag of
the header. -/
structure Register where
  id : TopicId
  mode : TopicMode := .open
  keyEpoch : Nat := 0
  unlisted : Bool := false
  hostCands : List Candidate := []
  «meta» : Bytes := []
  deriving DecidableEq

/-- `ctl::Update`, what a record is to say from now on. -/
structure Update where
  devId : DevId
  hostCands : List Candidate := []
  «meta» : Bytes := []
  deriving DecidableEq

/-- `wire::PeerEntry`: a record as others see it, with an age in place of an
instant. -/
structure PeerEntry where
  devId : DevId
  ageSecs : Nat
  stale : Bool
  cands : List Candidate
  «meta» : Bytes
  deriving DecidableEq

/-- `wire::TopicSummary`: a topic as the listing shows it. -/
structure TopicSummary where
  id : TopicId
  mode : TopicMode
  peers : Nat
  freshPeers : Nat
  deriving DecidableEq

/-- `ctl::RelayKind`: a spliced TCP connection, or forwarded datagrams. -/
inductive RelayKind where
  | tcp
  | udp
  deriving DecidableEq, Repr, Inhabited

/-- `wire::RelayId`, a `uint64_t`.  It is public, and 0 is none. -/
abbrev RelayId := Nat
/-- `ctl::RelayToken`: what a side of a relay joins with. -/
abbrev RelayToken := Vector UInt8 16

/-! ## Fixed-width counters

Counters that wrap do so here too.  Stated by a comparison and not by a
remainder, the two steps unfold well where the bound is known. -/

/-- `++n` on an unsigned counter of `w` bits. -/
def incr (w n : Nat) : Nat := if n + 1 < 2 ^ w then n + 1 else 0
/-- `--n` on an unsigned counter of `w` bits. -/
def decr (w n : Nat) : Nat := if n = 0 then 2 ^ w - 1 else n - 1

/-- Below the top of its range a counter does not wrap. -/
theorem incr_of_lt {w n : Nat} (h : n + 1 < 2 ^ w) : incr w n = n + 1 := if_pos h

/-- A counter that wraps counts modulo its range. -/
theorem incr_mod (w n : Nat) : incr w (n % 2 ^ w) = (n + 1) % 2 ^ w := by
  have hlt := Nat.mod_lt n (Nat.two_pow_pos w)
  have hsplit : (n + 1) % 2 ^ w = (n % 2 ^ w + 1) % 2 ^ w := (Nat.mod_add_mod n _ 1).symm
  unfold incr
  rw [hsplit]
  split
  · rename_i hroom
    exact (Nat.mod_eq_of_lt hroom).symm
  · have htop : n % 2 ^ w + 1 = 2 ^ w := by omega
    rw [htop, Nat.mod_self]

/-- Counting down too, as long as there is something to count down from. -/
theorem decr_mod (w n : Nat) : decr w ((n + 1) % 2 ^ w) = n % 2 ^ w := by
  have hlt := Nat.mod_lt n (Nat.two_pow_pos w)
  rw [← incr_mod]
  unfold incr
  split
  · rfl
  · unfold decr
    rw [if_pos rfl]
    omega

end UConnect
