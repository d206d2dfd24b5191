/-
  Wire/Frames.lean --- frames on a TCP stream.

  Source: src/wire/control.hpp and src/wire/control.cpp, `frame` and
  `FrameReader`, with `peek_type` of src/wire/messages.hpp.

  A frame is two bytes of length and a message.  The writer refuses a message
  over the limit, and a length over it breaks the reader for good, so a stream
  is never read on from the middle of a frame.
-/
import UConnect.Wire.Messages

set_option autoImplicit false

namespace UConnect.Wire

open UConnect.Foundation

/-- `ctl::kMaxFrame`: how much a peer can make the other end buffer for one
message. -/
def kMaxFrame : Nat := 32 * 1024

/-- `Header::kSize`, the bytes of a header. -/
def Header.kSize : Nat := 8

/-- `MsgType::RelayJoin`, the only framed message a relay connection receives. -/
def MsgType.relayJoin : MsgType := 0x19
/-- `MsgType::RelayJoinOk`, the only framed message it is sent. -/
def MsgType.relayJoinOk : MsgType := 0x1A

/-- `frame`: the length in two bytes and the message; empty if the message is
too large. -/
def frame (message : Bytes) : Bytes :=
  if message.length > kMaxFrame || message.length > 0xFFFF then []
  else beBytes 2 message.length ++ message

/-- `peek_type`: the type of something at least as long as a header, if its
range is known.  Neither the version nor the rest of the header is looked at. -/
def peekType (dgram : Bytes) : Option MsgType :=
  if dgram.length < Header.kSize then none
  else
    dgram.head?.bind fun type => if classify type = .unknown then none else some type

/-- `FrameReader`: what was read and not yet handed out, the limit, and whether
it was exceeded. -/
structure FrameReader where
  buf : Bytes := []
  max : Nat := kMaxFrame
  broken : Bool := false
  deriving DecidableEq

namespace FrameReader

/-- The length at the front of the buffer. -/
def declared (buf : Bytes) : Nat := beVal (buf.take 2)

/-- Is a length over the limit at the front of the buffer? -/
def overlong (max : Nat) (buf : Bytes) : Bool := decide (buf.length ≥ 2) && decide (declared buf > max)

/-- `feed`: a length over the limit is caught as soon as its two bytes are in,
and not only when its body has been buffered. -/
def feed (r : FrameReader) (bytes : Bytes) : Bool × FrameReader :=
  if r.broken then (false, r)
  else
    let buf := r.buf ++ bytes
    let r := { r with buf := buf, broken := overlong r.max buf }
    (!r.broken, r)

/-- `next`: the next message, if all of it is there.  Behind it the next length
is looked at too, so that a reader breaks at the same byte however its input is
cut. -/
def next (r : FrameReader) : Option Bytes × FrameReader :=
  if r.broken || r.buf.length < 2 then (none, r)
  else
    let len := declared r.buf
    if len > r.max then (none, { r with broken := true })
    else if r.buf.length < 2 + len then (none, r)
    else
      let rest := r.buf.drop (2 + len)
      (some ((r.buf.drop 2).take len), { r with buf := rest, broken := overlong r.max rest })

/-- `take_rest`: what is buffered, message or not; nothing is left. -/
def takeRest (r : FrameReader) : Bytes × FrameReader := (r.buf, { r with buf := [] })

end FrameReader

end UConnect.Wire
