/-
  Server/Config.lean --- the server's configuration, and the file it is read
  from.

  Source: server/config.cpp, the values and the schema, `set_field`,
  `apply_node`, `apply_config`, `load_config_file`, `validate_config` and
  `to_yaml`; server/rendezvous.hpp, `RendezvousConfig`.

  A row of the schema is a `Setting`.  `size_t` is 64 bits wide.  What is set is
  in the row's range, where no cast to the member's type changes it.
-/
import UConnect.Server.Yaml
import UConnect.Server.Registry
import UConnect.Wire.Frames

set_option autoImplicit false

namespace UConnect.Server

open UConnect.Foundation UConnect.Crypto UConnect.Wire

/-! ## Data model

The configuration as the server uses it, with the defaults it starts from. -/

/-- `ControlConfig`: the rates of the control connections and of the datagrams. -/
structure ControlConfig where
  rateBytesPerSec : Nat := 256 * 1024
  rateBurstBytes : Nat := 1024 * 1024
  udpBytesPerSec : Nat := 4 * 1024 * 1024
  udpBurstBytes : Nat := 8 * 1024 * 1024
  maxUdpSources : Nat := 16384

/-- `RendezvousConfig`, everything a configuration file can set. -/
structure RendezvousConfig where
  port : Nat := 4433
  bindHost : Bytes := []
  registry : RegistryConfig := {}
  control : ControlConfig := {}
  maxConnections : Nat := 20000
  maxConnectionsPerIp : Nat := 64
  idleTimeout : Duration := seconds 90
  firstFrameTimeout : Duration := seconds 10
  relayJoinTimeout : Duration := seconds 20
  relayIdleTimeout : Duration := seconds 90
  spliceBuffer : Nat := 256 * 1024
  threads : Nat := 1

/-- `Kind`: how the value of a row is written. -/
inductive Kind where
  | count
  | bytes
  | seconds
  | bool
  | text
  deriving DecidableEq, Repr

/-- The rows of the schema. -/
inductive Setting where
  | port
  | bind
  | threads
  | connectionsMax
  | connectionsMaxPerIp
  | connectionsIdleTimeout
  | connectionsFirstFrameTimeout
  | registryStaleAfter
  | registryMaxPerIpPerTopic
  | registryMaxPerIpTotal
  | registryMaxEntries
  | registryMaxTopics
  | relayEnabled
  | relayExpiry
  | relayMax
  | relayMaxPerIp
  | relayMaxBytes
  | relayJoinTimeout
  | relayIdleTimeout
  | relaySpliceBuffer
  | rateControlBytesPerSec
  | rateControlBurstBytes
  | rateUdpBytesPerSec
  | rateUdpBurstBytes
  deriving DecidableEq, Repr

/-! ## Values

Numbers and their units.  A number is read with an overflow check at each digit
and at the unit, so that what is read is never a remainder. -/

/-- The largest `uint64_t`. -/
def kMaxUint : Nat := 2 ^ 64 - 1
/-- `kKiB`, the unit of the sizes in the schema. -/
def kKiB : Nat := 1024
/-- `kMaxSize`, what the largest `size_t` is. -/
def kMaxSize : Nat := kMaxUint
/-- `kMaxSecs`, ten years: nanoseconds of it are still far from the end of their
type. -/
def kMaxSecs : Nat := 10 * 365 * 24 * 3600
/-- `kMaxUdpDatagram`, below which a burst could not pay for one datagram. -/
def kMaxUdpDatagram : Nat := 2048
/-- `ControlService::kMessageOverhead`, what a message costs beyond its bytes. -/
def kMessageOverhead : Nat := 64

def isDigit (c : UInt8) : Bool := 48 ≤ c && c ≤ 57

/-- The loop of `parse_uint`. -/
def parseUintFrom : Nat → Bytes → Option Nat
  | v, [] => some v
  | v, c :: s =>
      if !isDigit c then none
      else
        let d := c.toNat - 48
        if v > (kMaxUint - d) / 10 then none else parseUintFrom (v * 10 + d) s

/-- `parse_uint`: decimal digits and nothing else, up to the largest 64-bit
number. -/
def parseUint (s : Bytes) : Option Nat := if s = [] then none else parseUintFrom 0 s

/-- `parse_with_unit`: digits, one space at most, and a unit of the list;
without a unit the number stands for itself. -/
def parseWithUnit (s : Bytes) (units : List (Bytes × Nat)) : Option Nat :=
  match parseUint (s.takeWhile isDigit) with
  | none => none
  | some n =>
      let unit := s.dropWhile isDigit
      let unit := if unit.head? = some kSpace then unit.tail else unit
      if unit = [] then some n
      else
        match units.lookup unit with
        | none => none
        | some scale => if n > kMaxUint / scale then none else some (n * scale)

/-- `format_bytes`: in the largest unit that leaves nothing over. -/
def formatBytes (v : Nat) : Bytes :=
  if v ≠ 0 ∧ v % 2 ^ 30 = 0 then toDecimal (v / 2 ^ 30) ++ ascii "GiB"
  else if v ≠ 0 ∧ v % 2 ^ 20 = 0 then toDecimal (v / 2 ^ 20) ++ ascii "MiB"
  else if v ≠ 0 ∧ v % 2 ^ 10 = 0 then toDecimal (v / 2 ^ 10) ++ ascii "KiB"
  else toDecimal v

/-- `format_seconds`: in hours or minutes if nothing is left over, and minutes
only below an hour. -/
def formatSeconds (v : Nat) : Bytes :=
  if v ≠ 0 ∧ v % 3600 = 0 then toDecimal (v / 3600) ++ ascii "h"
  else if v ≠ 0 ∧ v % 60 = 0 ∧ v < 3600 then toDecimal (v / 60) ++ ascii "m"
  else toDecimal v ++ ascii "s"

/-! ## The schema

A row gives the path of a setting, the kind of its value and its range.  In the
source it also holds two functions for the member; here these are cases of `get`
and `set`. -/

namespace Setting

def path : Setting → Bytes
  | .port => ascii "port"
  | .bind => ascii "bind"
  | .threads => ascii "threads"
  | .connectionsMax => ascii "connections.max"
  | .connectionsMaxPerIp => ascii "connections.max_per_ip"
  | .connectionsIdleTimeout => ascii "connections.idle_timeout"
  | .connectionsFirstFrameTimeout => ascii "connections.first_frame_timeout"
  | .registryStaleAfter => ascii "registry.stale_after"
  | .registryMaxPerIpPerTopic => ascii "registry.max_per_ip_per_topic"
  | .registryMaxPerIpTotal => ascii "registry.max_per_ip_total"
  | .registryMaxEntries => ascii "registry.max_entries"
  | .registryMaxTopics => ascii "registry.max_topics"
  | .relayEnabled => ascii "relay.enabled"
  | .relayExpiry => ascii "relay.expiry"
  | .relayMax => ascii "relay.max"
  | .relayMaxPerIp => ascii "relay.max_per_ip"
  | .relayMaxBytes => ascii "relay.max_bytes"
  | .relayJoinTimeout => ascii "relay.join_timeout"
  | .relayIdleTimeout => ascii "relay.idle_timeout"
  | .relaySpliceBuffer => ascii "relay.splice_buffer"
  | .rateControlBytesPerSec => ascii "rate_limits.control_bytes_per_sec"
  | .rateControlBurstBytes => ascii "rate_limits.control_burst_bytes"
  | .rateUdpBytesPerSec => ascii "rate_limits.udp_bytes_per_sec"
  | .rateUdpBurstBytes => ascii "rate_limits.udp_burst_bytes"

def kind : Setting → Kind
  | .bind => .text
  | .relayEnabled => .bool
  | .connectionsIdleTimeout | .connectionsFirstFrameTimeout | .registryStaleAfter | .relayExpiry
  | .relayJoinTimeout | .relayIdleTimeout => .seconds
  | .relayMaxBytes | .relaySpliceBuffer | .rateControlBytesPerSec | .rateControlBurstBytes
  | .rateUdpBytesPerSec | .rateUdpBurstBytes => .bytes
  | _ => .count

def lo : Setting → Nat
  | .port => 0
  | .bind => 0
  | .relayEnabled => 0
  | .relayMaxBytes => kKiB
  | .relaySpliceBuffer => kKiB
  | .rateControlBurstBytes => kMaxFrame + kMessageOverhead
  | .rateUdpBurstBytes => kMaxUdpDatagram
  | _ => 1

def hi : Setting → Nat
  | .port => 65535
  | .bind => 0
  | .threads => 256
  | .relayEnabled => 1
  | .relayMaxBytes => 0xFFFFFFFF * kKiB
  | s => if s.kind = .seconds then kMaxSecs else kMaxSize

/-- `std::chrono::seconds::count`, as a `uint64_t`. -/
def secondsOf (d : Duration) : Nat := (d / seconds 1 % 2 ^ 64).toNat

/-- `Field::get`, as the number the document has.  The address to bind to is the
one setting that is no number, and is read elsewhere. -/
def get (c : RendezvousConfig) : Setting → Nat
  | .port => c.port
  | .bind => 0
  | .threads => c.threads
  | .connectionsMax => c.maxConnections
  | .connectionsMaxPerIp => c.maxConnectionsPerIp
  | .connectionsIdleTimeout => secondsOf c.idleTimeout
  | .connectionsFirstFrameTimeout => secondsOf c.firstFrameTimeout
  | .registryStaleAfter => secondsOf c.registry.staleAfter
  | .registryMaxPerIpPerTopic => c.registry.maxPerIpPerTopic
  | .registryMaxPerIpTotal => c.registry.maxPerIpTotal
  | .registryMaxEntries => c.registry.maxEntries
  | .registryMaxTopics => c.registry.maxTopics
  | .relayEnabled => c.registry.relayEnabled.toNat
  | .relayExpiry => secondsOf c.registry.relayExpiry
  | .relayMax => c.registry.maxRelays
  | .relayMaxPerIp => c.registry.maxRelaysPerIp
  | .relayMaxBytes => c.registry.relayMaxBytes
  | .relayJoinTimeout => secondsOf c.relayJoinTimeout
  | .relayIdleTimeout => secondsOf c.relayIdleTimeout
  | .relaySpliceBuffer => c.spliceBuffer
  | .rateControlBytesPerSec => c.control.rateBytesPerSec
  | .rateControlBurstBytes => c.control.rateBurstBytes
  | .rateUdpBytesPerSec => c.control.udpBytesPerSec
  | .rateUdpBurstBytes => c.control.udpBurstBytes

/-- `Field::set`.  Durations are set in whole seconds. -/
def set (c : RendezvousConfig) (v : Nat) : Setting → RendezvousConfig
  | .port => { c with port := v }
  | .bind => c
  | .threads => { c with threads := v }
  | .connectionsMax => { c with maxConnections := v }
  | .connectionsMaxPerIp => { c with maxConnectionsPerIp := v }
  | .connectionsIdleTimeout => { c with idleTimeout := seconds v }
  | .connectionsFirstFrameTimeout => { c with firstFrameTimeout := seconds v }
  | .registryStaleAfter => { c with registry := { c.registry with staleAfter := seconds v } }
  | .registryMaxPerIpPerTopic => { c with registry := { c.registry with maxPerIpPerTopic := v } }
  | .registryMaxPerIpTotal => { c with registry := { c.registry with maxPerIpTotal := v } }
  | .registryMaxEntries => { c with registry := { c.registry with maxEntries := v } }
  | .registryMaxTopics => { c with registry := { c.registry with maxTopics := v } }
  | .relayEnabled => { c with registry := { c.registry with relayEnabled := v ≠ 0 } }
  | .relayExpiry => { c with registry := { c.registry with relayExpiry := seconds v } }
  | .relayMax => { c with registry := { c.registry with maxRelays := v } }
  | .relayMaxPerIp => { c with registry := { c.registry with maxRelaysPerIp := v } }
  | .relayMaxBytes => { c with registry := { c.registry with relayMaxBytes := v } }
  | .relayJoinTimeout => { c with relayJoinTimeout := seconds v }
  | .relayIdleTimeout => { c with relayIdleTimeout := seconds v }
  | .relaySpliceBuffer => { c with spliceBuffer := v }
  | .rateControlBytesPerSec => { c with control := { c.control with rateBytesPerSec := v } }
  | .rateControlBurstBytes => { c with control := { c.control with rateBurstBytes := v } }
  | .rateUdpBytesPerSec => { c with control := { c.control with udpBytesPerSec := v } }
  | .rateUdpBurstBytes => { c with control := { c.control with udpBurstBytes := v } }

end Setting

/-- `schema`, in document order, which is also the order of the errors
`validate_config` finds. -/
def schema : List Setting :=
  [.port, .bind, .threads, .connectionsMax, .connectionsMaxPerIp, .connectionsIdleTimeout,
    .connectionsFirstFrameTimeout, .registryStaleAfter, .registryMaxPerIpPerTopic,
    .registryMaxPerIpTotal, .registryMaxEntries, .registryMaxTopics, .relayEnabled, .relayExpiry,
    .relayMax, .relayMaxPerIp, .relayMaxBytes, .relayJoinTimeout, .relayIdleTimeout,
    .relaySpliceBuffer, .rateControlBytesPerSec, .rateControlBurstBytes, .rateUdpBytesPerSec,
    .rateUdpBurstBytes]

/-- `find_field`: the row of a path. -/
def findField (path : Bytes) : Option Setting := schema.find? fun s => s.path = path

/-- `is_section`: does some row lie below the path? -/
def isSection (path : Bytes) : Bool := schema.any fun s => (path ++ [kDot]).isPrefixOf s.path

/-- `show`: a value as the document would have it. -/
def showValue (s : Setting) (v : Nat) : Bytes :=
  match s.kind with
  | .bytes => formatBytes v
  | .seconds => formatSeconds v
  | .bool => if v ≠ 0 then ascii "true" else ascii "false"
  | _ => toDecimal v

/-- `in_range`, or what is wrong, with the bound as the document would have it. -/
def inRange (s : Setting) (v : Nat) : Option Bytes :=
  if v < s.lo then some (ascii "'" ++ s.path ++ ascii "' must be at least " ++ showValue s s.lo)
  else if v > s.hi then some (ascii "'" ++ s.path ++ ascii "' must be at most " ++ showValue s s.hi)
  else none

/-- What a text is read as, for a row that is not text. -/
def parseValue (s : Setting) (text : Bytes) : Option Nat :=
  match s.kind with
  | .count => parseUint text
  | .bytes => parseWithUnit text [(ascii "B", 1), (ascii "KiB", kKiB), (ascii "MiB", kKiB * kKiB),
      (ascii "GiB", kKiB * kKiB * kKiB)]
  | .seconds => parseWithUnit text [(ascii "s", 1), (ascii "m", 60), (ascii "h", 3600)]
  | .bool => if text = ascii "true" then some 1 else if text = ascii "false" then some 0 else none
  | .text => none

/-- What a row expects. -/
def expected (s : Setting) : Bytes :=
  match s.kind with
  | .count => ascii "a whole number"
  | .bytes => ascii "a size, such as 4096, 256KiB, 32MiB or 1GiB"
  | .seconds => ascii "a duration, such as 45, 90s, 2m or 1h"
  | .bool => ascii "true or false"
  | .text => []

/-- `set_field`: the text is read as the row's kind asks and must be in its
range.  Every error names the path. -/
def setField (s : Setting) (text : Bytes) (c : RendezvousConfig) : Except Bytes RendezvousConfig :=
  if s.kind = .text then .ok { c with bindHost := text }
  else
    match parseValue s text with
    | none => .error (ascii "'" ++ s.path ++ ascii "' must be " ++ expected s ++ ascii ", not '" ++
        text ++ ascii "'")
    | some v =>
        match inRange s v with
        | some why => .error why
        | none => .ok (s.set c v)

/-! ## The file

A document is parsed, its nodes are looked up in the schema, and the result
takes effect only if every part of it was accepted. -/

/-- The path of a key beneath another. -/
def joinPath (above key : Bytes) : Bytes := if above = [] then key else above ++ [kDot] ++ key

/-- `apply_node`: what went wrong, if anything did, and the configuration as it
is by then. -/
def applyNode (above : Bytes) :
    YamlMap Nat → RendezvousConfig → Option ParseError × RendezvousConfig
  | .nil, c => (none, c)
  | .scalar line key value rest, c =>
      let path := joinPath above key
      match findField path with
      | some s =>
          match setField s value c with
          | .error why => (some ⟨line, why⟩, c)
          | .ok c => applyNode above rest c
      | none =>
          if isSection path then
            (some ⟨line, ascii "'" ++ path ++ ascii "' is a section: indent its keys beneath it"⟩, c)
          else (some ⟨line, ascii "unknown key '" ++ path ++ ascii "'"⟩, c)
  | .nested line key body rest, c =>
      let path := joinPath above key
      match findField path with
      | some _ =>
          (some ⟨line, ascii "'" ++ path ++ ascii "' takes a value, not a section"⟩, c)
      | none =>
          if isSection path then
            match applyNode path body c with
            | (some e, c) => (some e, c)
            | (none, c) => applyNode above rest c
          else (some ⟨line, ascii "unknown key '" ++ path ++ ascii "'"⟩, c)

/-- What a call with two results that it writes to returns: its value, and both. -/
structure Returned (α : Type) where
  ok : Bool
  value : α
  error : Bytes

/-- The text of an error. -/
def ParseError.text (e : ParseError) : Bytes :=
  ascii "line " ++ toDecimal e.line ++ ascii ": " ++ e.message

/-- `apply_config`: the document is applied to a copy. -/
def applyConfig (yaml : Bytes) (cfg : RendezvousConfig) (error : Bytes) :
    Returned RendezvousConfig :=
  match parseYaml yaml with
  | .error e => ⟨false, cfg, e.text⟩
  | .ok root =>
      match applyNode [] root cfg with
      | (some e, _) => ⟨false, cfg, e.text⟩
      | (none, next) => ⟨true, next, error⟩

/-- `validate_config`, or what is wrong.  It is also run on what the command
line has set. -/
def validateConfig (c : RendezvousConfig) : Option Bytes :=
  schema.findSome? fun s => if s.kind = .text then none else inRange s (s.get c)

/-- What comes before the first dot, or nothing if there is none. -/
def sectionOf (path : Bytes) : Bytes :=
  if kDot ∈ path then path.takeWhile (· ≠ kDot) else []

/-- What comes after the first dot, or all of it. -/
def leafOf (path : Bytes) : Bytes :=
  if kDot ∈ path then (path.dropWhile (· ≠ kDot)).tail else path

/-- The body of the loop of `to_yaml`, on the text so far and its section. -/
def writeField (c : RendezvousConfig) (st : Bytes × Bytes) (s : Setting) : Bytes × Bytes :=
  let here := sectionOf s.path
  let out := if here ≠ st.2 then st.1 ++ [kNewline] ++ here ++ [kColon, kNewline] else st.1
  (out ++ (if here = [] then [] else [kSpace, kSpace]) ++ leafOf s.path ++ [kColon, kSpace] ++
    (if s.kind = .text then quote c.bindHost else showValue s (s.get c)) ++ [kNewline], here)

/-- `to_yaml`: every row with its value, under its sections. -/
def toYaml (c : RendezvousConfig) : Bytes :=
  (schema.foldl (writeField c)
    (ascii "# uconnect-rendezvous configuration" ++ [kNewline], [])).1

end UConnect.Server
