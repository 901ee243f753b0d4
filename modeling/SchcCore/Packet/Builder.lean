import SchcCore.Packet.Checksum
import SchcCore.Packet.Coap
import SchcCore.Packet.Field

/- Packet reconstruction from decoded field stores. The recursion from an ICMPv6 error to
   the packet it carries is explicit: `inner` rebuilds the embedded packet. -/
namespace SchcCore
open Outcome Bytes BigEndian FieldStore

def reverseDirection : Direction → Direction
  | .up => .down
  | .down => .up

def firstValueAt (fields : FieldStore) (field : FieldRef) (scope : PacketScope) :
    Result FieldValue :=
  match fields.firstByFieldScope field scope with
  | some value => .ok value
  | none =>
      invalidResidue
        ("missing reconstructed field " ++ field.debug ++ " in " ++ scope.debug ++ " scope")

/-- `u8::try_from` and `u16::try_from` of a value, with the reason the caller gives. -/
def narrowTo (limit : Nat) (reason : String) (value : FieldValue) : Result Nat := do
  let n ← value.toU64
  if n < limit then .ok n else invalidResidue reason

def firstU8At (fields : FieldStore) (field : FieldRef) (scope : PacketScope) : Result Nat := do
  let value ← firstValueAt fields field scope
  narrowTo 256 "field does not fit u8" value

def firstU16At (fields : FieldStore) (field : FieldRef) (scope : PacketScope) : Result Nat := do
  let value ← firstValueAt fields field scope
  narrowTo 65536 "field does not fit u16" value

/-- Every `u64` fits `usize`. -/
def firstUsizeAt (fields : FieldStore) (field : FieldRef) (scope : PacketScope) : Result Nat := do
  let value ← firstValueAt fields field scope
  value.toU64

/-- Honors a sent length; otherwise the length counted from the payload. -/
def sentOrCounted (sent : Option FieldValue) (sentReason : String) (counted : Nat)
    (countedReason : String) : Result Nat :=
  match sent with
  | some value => narrowTo 65536 sentReason value
  | none => if counted < 65536 then .ok counted else invalidResidue countedReason

/-- Honors a sent checksum; otherwise zero, to be computed later. -/
def sentOrZero (sent : Option FieldValue) (reason : String) : Result (Nat × Bool) :=
  match sent with
  | some value => do
      let checksum ← narrowTo 65536 reason value
      .ok (checksum, false)
  | none => .ok (0, true)

def sharedPayload (fields : FieldStore) (scope : PacketScope) (protocolField : FieldRef) :
    Result (List UInt8) :=
  match fields.firstByFieldScope protocolField scope, fields.firstByFieldScope .payload scope with
  | some protocol, some generic =>
      if protocol.bytes ≠ generic.bytes then
        invalidResidue "generic and protocol-specific payload values differ"
      else .ok protocol.bytes
  | some value, none => .ok value.bytes
  | none, some value => .ok value.bytes
  | none, none => .ok []

def fieldU64 (field : FieldValue) : Result Nat :=
  if field.bitLen ≠ 64 then
    invalidResidue s!"address field is {field.bitLen} bits, expected 64"
  else field.toU64

def endpointAddress (fields : FieldStore) (scope : PacketScope) (prefixField iidField : FieldRef) :
    Result (List UInt8) := do
  let addressPrefix ← firstValueAt fields prefixField scope
  let iid ← firstValueAt fields iidField scope
  let high ← fieldU64 addressPrefix
  let low ← fieldU64 iid
  .ok (toBytes 8 high ++ toBytes 8 low)

def endpointAddresses (direction : Direction) (fields : FieldStore) (scope : PacketScope) :
    Result (List UInt8 × List UInt8) := do
  let device ← endpointAddress fields scope (.ipv6 (.known .ipv6DevPrefix)) (.ipv6 (.known .ipv6DevIid))
  let application ← endpointAddress fields scope (.ipv6 (.known .ipv6AppPrefix))
    (.ipv6 (.known .ipv6AppIid))
  match direction with
  | .up => .ok (device, application)
  | .down => .ok (application, device)

def coapToken (fields : FieldStore) (scope : PacketScope) (tokenLen : Nat) :
    Result (List UInt8) :=
  match fields.firstByFieldScope (.coap (.known .coapToken)) scope with
  | some value =>
      if value.bitLen ≠ tokenLen * 8 then invalidResidue "CoAP token length does not match TKL"
      else if tokenLen = 0 ∧ value.bytes ≠ [] then
        invalidResidue "CoAP token present with zero TKL"
      else .ok value.bytes
  | none => if tokenLen = 0 then .ok [] else invalidResidue "missing reconstructed CoAP token"

/-- The stored options of a scope, in rule entry order. -/
def coapOptions (scope : PacketScope) : FieldStore → Result (List CoapOption)
  | [] => .ok []
  | (key, value) :: fields =>
      match key.field with
      | .coapOption number =>
          if key.scope = scope then
            if number < 2 ^ 32 then do
              let option ← CoapOption.new (UInt32.ofNat number) value.bytes
              let options ← coapOptions scope fields
              .ok (option :: options)
            else invalidResidue s!"CoAP option number {number} does not fit u32"
          else coapOptions scope fields
      | _ => coapOptions scope fields

def reconstructCoap (fields : FieldStore) (scope : PacketScope) : Result (List UInt8) := do
  let version ← firstU8At fields (.coap (.known .coapVersion)) scope
  let messageType ← firstU8At fields (.coap (.known .coapType)) scope
  let tokenLen ← firstU8At fields (.coap (.known .coapTkl)) scope
  let code ← firstU8At fields (.coap (.known .coapCode)) scope
  let messageId ← firstU16At fields (.coap (.known .coapMid)) scope
  if version > 3 ∨ messageType > 3 ∨ tokenLen > 8 then
    invalidResidue "CoAP fixed header fields are out of range"
  else do
    let token ← coapToken fields scope tokenLen
    let options ← coapOptions scope fields
    let payload ← sharedPayload fields scope (.coap (.known .coapPayload))
    let message ← CoapMessage.fromParts (UInt8.ofNat version) (UInt8.ofNat messageType)
      (UInt8.ofNat code) (UInt16.ofNat messageId) token options payload
    message.toVec

/-- The CoAP message over UDP, or nothing when the store has no outer CoAP version. -/
def carriedCoap (fields : FieldStore) (scope : PacketScope) : Result (List UInt8) :=
  if scope = .outer ∧ fields.containsFieldScope (.coap (.known .coapVersion)) scope then
    reconstructCoap fields scope
  else .ok []

def udpPayload (fields : FieldStore) (scope : PacketScope) (coap : List UInt8) :
    Result (List UInt8) :=
  if coap = [] then sharedPayload fields scope (.udp (.known .udpPayload))
  else
    match fields.firstByFieldScope (.udp (.known .udpPayload)) scope with
    | some payload =>
        if payload.bytes ≠ coap then invalidResidue "UDP and CoAP payload values differ"
        else .ok coap
    | none => .ok coap

/-- The UDP datagram, and whether its checksum is still to be computed. -/
def reconstructUdp (direction : Direction) (fields : FieldStore) (scope : PacketScope) :
    Result (List UInt8 × Bool) := do
  let coap ← carriedCoap fields scope
  let devPort ← firstU16At fields (.udp (.known .udpDevPort)) scope
  let appPort ← firstU16At fields (.udp (.known .udpAppPort)) scope
  let payload ← udpPayload fields scope coap
  let length ← sentOrCounted (fields.firstByFieldScope (.udp (.known .udpLength)) scope)
    "sent UDP length does not fit u16" (8 + payload.length)
    "UDP payload is too large to encode length"
  let (checksum, computeChecksum) ←
    sentOrZero (fields.firstByFieldScope (.udp (.known .udpChecksum)) scope)
      "sent UDP checksum does not fit u16"
  let (sourcePort, destinationPort) := match direction with
    | .up => (devPort, appPort)
    | .down => (appPort, devPort)
  .ok (toBytes 2 sourcePort ++ toBytes 2 destinationPort ++ toBytes 2 length ++
    toBytes 2 checksum ++ payload, computeChecksum)

def icmpv6TypeWord (fields : FieldStore) (scope : PacketScope) (messageType : UInt8) :
    Result FieldValue :=
  if hasIcmpv6UnusedField messageType then
    match fields.firstByFieldScope .unused scope with
    | some word => .ok word
    | none => invalidResidue "missing fid-unused for ICMPv6 error reconstruction"
  else
    match fields.firstByFieldScope
      (.icmpv6 (.known (if messageType = 2 then .icmpv6Mtu else .icmpv6Pointer))) scope with
    | some word => .ok word
    | none => invalidResidue "missing ICMPv6 type-specific 32-bit field"

/-- The packet that an ICMPv6 error carries: rebuilt from its own fields, or given whole. -/
def icmpv6ErrorBody (inner : Result (List UInt8)) (fields : FieldStore) (scope : PacketScope) :
    Result (List UInt8) :=
  if fields.containsFieldScope (.ipv6 (.known .ipv6Version)) .embedded then do
    let inner ← inner
    match fields.firstByFieldScope .payload scope with
    | some outerPayload =>
        if outerPayload.bytes ≠ inner then
          invalidResidue "outer and embedded generic payload values differ"
        else .ok inner
    | none => .ok inner
  else if fields.containsFieldScope .payload scope then sharedPayload fields scope .payload
  else invalidResidue "missing embedded packet for ICMPv6 error reconstruction"

def echoWords (fields : FieldStore) (scope : PacketScope) (messageType : UInt8) :
    Result (List UInt8) :=
  if isEchoType messageType ∧
      fields.containsFieldScope (.icmpv6 (.known .icmpv6Identifier)) scope then do
    let identifier ← firstU16At fields (.icmpv6 (.known .icmpv6Identifier)) scope
    let sequence ← firstU16At fields (.icmpv6 (.known .icmpv6Sequence)) scope
    .ok (toBytes 2 identifier ++ toBytes 2 sequence)
  else .ok []

/-- The ICMPv6 message, and whether its checksum is still to be computed. -/
def reconstructIcmpv6 (inner : Result (List UInt8)) (fields : FieldStore) (scope : PacketScope) :
    Result (List UInt8 × Bool) := do
  let messageType ← firstU8At fields (.icmpv6 (.known .icmpv6Type)) scope
  let code ← firstU8At fields (.icmpv6 (.known .icmpv6Code)) scope
  let (checksum, computeChecksum) ←
    sentOrZero (fields.firstByFieldScope (.icmpv6 (.known .icmpv6Checksum)) scope)
      "sent ICMPv6 checksum does not fit u16"
  let header := [UInt8.ofNat messageType, UInt8.ofNat code] ++ toBytes 2 checksum
  if isIcmpv6ErrorType (UInt8.ofNat messageType) then do
    let typeWord ← icmpv6TypeWord fields scope (UInt8.ofNat messageType)
    if typeWord.bitLen ≠ 32 ∨ typeWord.bytes.length ≠ 4 then
      invalidResidue "ICMPv6 type-specific field must be exactly 32 bits"
    else do
      let body ← icmpv6ErrorBody inner fields scope
      .ok (header ++ typeWord.bytes ++ body, computeChecksum)
  else do
    let payload ← sharedPayload fields scope (.icmpv6 (.known .icmpv6Payload))
    let words ← echoWords fields scope (UInt8.ofNat messageType)
    .ok (header ++ words ++ payload, computeChecksum)

/-- Where the checksum of an upper-layer segment starts. -/
def checksumRange (nextHeader : UInt8) (upper : List UInt8) : Result Nat :=
  if nextHeader = 17 ∧ upper.length ≥ 8 then .ok 6
  else if nextHeader = 58 ∧ upper.length ≥ 4 then .ok 2
  else
    invalidResidue s!"upper segment too short for next header {nextHeader.toNat} checksum"

def withChecksum (source destination : List UInt8) (nextHeader : UInt8) (upper : List UInt8)
    (computeChecksum : Bool) : Result (List UInt8) :=
  if computeChecksum then do
    let start ← checksumRange nextHeader upper
    copyInto upper start (toBytes 2 (transportChecksum source destination nextHeader upper))
  else .ok upper

def reconstructIpv6WithUpper (direction : Direction) (fields : FieldStore) (scope : PacketScope)
    (nextHeader : UInt8) (upper : List UInt8) (computeChecksum : Bool) : Result (List UInt8) := do
  let version ← firstU8At fields (.ipv6 (.known .ipv6Version)) scope
  let trafficClass ← firstU8At fields (.ipv6 (.known .ipv6TrafficClass)) scope
  let flowLabel ← firstUsizeAt fields (.ipv6 (.known .ipv6FlowLabel)) scope
  let hopLimit ← firstU8At fields (.ipv6 (.known .ipv6HopLimit)) scope
  let payloadLen ← sentOrCounted
    (fields.firstByFieldScope (.ipv6 (.known .ipv6PayloadLength)) scope)
    "sent IPv6 payload length does not fit u16" upper.length
    "IPv6 payload is too large to encode length"
  let (source, destination) ← endpointAddresses direction fields scope
  if version ≠ 6 ∨ flowLabel > 0x000fffff then
    invalidResidue "IPv6 fixed header fields are out of range"
  else do
    let upper ← withChecksum source destination nextHeader upper computeChecksum
    .ok (toBytes 4 ((version <<< 28) ||| (trafficClass <<< 20) ||| flowLabel) ++
      toBytes 2 payloadLen ++ [nextHeader, UInt8.ofNat hopLimit] ++ source ++ destination ++ upper)

/-- Rebuilds the packet of a scope; `depth` bounds the nesting of calls. An embedded packet
    that is itself an ICMPv6 error with an embedded packet is rebuilt inside itself without
    end, which overflows the stack whatever the bound. -/
def reconstructPacketAt : Nat → Direction → FieldStore → PacketScope → Result (List UInt8)
  | 0, _, _, _ => panicAt .stackOverflow
  | depth + 1, direction, fields, scope => do
      let nextHeader ← firstU8At fields (.ipv6 (.known .ipv6NextHeader)) scope
      if nextHeader = 17 then do
        let (upper, computeChecksum) ← reconstructUdp direction fields scope
        reconstructIpv6WithUpper direction fields scope 17 upper computeChecksum
      else if nextHeader = 58 then do
        let (upper, computeChecksum) ← reconstructIcmpv6
          (reconstructPacketAt depth (reverseDirection direction) fields .embedded) fields scope
        reconstructIpv6WithUpper direction fields scope 58 upper computeChecksum
      else invalidResidue s!"unsupported IPv6 next header {nextHeader}"

/-- An outer packet and the one it carries. -/
def packetDepth : Nat := 2

def reconstructPacket (direction : Direction) (fields : FieldStore) : Result (List UInt8) := do
  let packet ← reconstructPacketAt packetDepth direction fields .outer
  validatePacketLengths packet
  .ok packet

/-- `first_by_field_scope(field, Outer).map(FieldValue::to_u64).transpose()` -/
def outerU64 (fields : FieldStore) (field : FieldRef) : Result (Option Nat) :=
  match fields.firstByFieldScope field .outer with
  | some value => do
      let n ← value.toU64
      .ok (some n)
  | none => .ok none

def valueIsIcmpError (value : Nat) : Bool := 1 ≤ value && value ≤ 4

def headerOnlyIcmpError (fields : FieldStore) : Result Bool := do
  let nextHeader ← outerU64 fields (.ipv6 (.known .ipv6NextHeader))
  let messageType ← outerU64 fields (.icmpv6 (.known .icmpv6Type))
  let hasPayload := fields.containsField .payload ||
    fields.containsField (.icmpv6 (.known .icmpv6Payload))
  .ok (nextHeader = some 58 && messageType.any valueIsIcmpError && !hasPayload)

def validateEmbeddedIpv6Suffix (suffix : List UInt8) : Result Unit := do
  let embedded ← Ipv6Packet.parse suffix
  if embedded.nextHeader = 17 then
    let _ ← UdpDatagram.parse embedded.payload
    .ok ()
  else .ok ()

/-- The rebuilt packet with the suffix appended, or injected as an ICMPv6 error's payload. -/
def joinSuffix (direction : Direction) (fields : FieldStore) (suffix : List UInt8) :
    Result (List UInt8) := do
  let injectIcmpPayload ← headerOnlyIcmpError fields
  if injectIcmpPayload then do
    validateEmbeddedIpv6Suffix suffix
    let payload ← FieldValue.fromBytes suffix (suffix.length * 8)
    reconstructPacketAt packetDepth direction (fields.insert ⟨.payload, 1, 0, .outer⟩ payload) .outer
  else do
    let packet ← reconstructPacketAt packetDepth direction fields .outer
    .ok (packet ++ suffix)

/-- Writes the counted length at `start` unless the rule transmitted that length. -/
def patchLength (fields : FieldStore) (field : FieldRef) (start : Nat) (reason : String)
    (packet : List UInt8) : Result (List UInt8) :=
  if fields.containsFieldScope field .outer then .ok packet
  else if packet.length - 40 < 65536 then copyInto packet start (toBytes 2 (packet.length - 40))
  else invalidResidue reason

/-- Zeroes the checksum at `start` and writes the one over the whole segment, unless the rule
    transmitted it. -/
def patchChecksum (fields : FieldStore) (field : FieldRef) (start : Nat) (nextHeader : UInt8)
    (packet : List UInt8) : Result (List UInt8) :=
  if fields.containsFieldScope field .outer then .ok packet
  else do
    let source ← slice packet 8 24
    let destination ← slice packet 24 40
    let packet ← copyInto packet start [0, 0]
    let segment ← slice packet 40 packet.length
    copyInto packet start (toBytes 2 (transportChecksum source destination nextHeader segment))

def patchUdp (fields : FieldStore) (packet : List UInt8) : Result (List UInt8) :=
  if packet.length < 48 then invalidResidue "carried UDP packet is shorter than its header"
  else do
    let packet ← patchLength fields (.udp (.known .udpLength)) 44
      "carried UDP payload is too large" packet
    let packet ← patchChecksum fields (.udp (.known .udpChecksum)) 46 17 packet
    if fields.containsFieldScope (.coap (.known .coapVersion)) .outer then do
      let coap ← slice packet 48 packet.length
      let _ ← CoapMessage.parse coap
      .ok packet
    else .ok packet

def patchIcmpv6 (fields : FieldStore) (packet : List UInt8) : Result (List UInt8) :=
  if packet.length < 44 then invalidResidue "carried ICMPv6 packet is shorter than its header"
  else do
    let packet ← patchChecksum fields (.icmpv6 (.known .icmpv6Checksum)) 42 58 packet
    let segment ← slice packet 40 packet.length
    let _ ← Icmpv6Message.parse segment
    .ok packet

def patchUpper (fields : FieldStore) (nextHeader : UInt8) (packet : List UInt8) :
    Result (List UInt8) :=
  if nextHeader = 17 then patchUdp fields packet
  else if nextHeader = 58 then patchIcmpv6 fields packet
  else .ok packet

def reconstructPacketWithSuffix (direction : Direction) (fields : FieldStore)
    (suffix : List UInt8) : Result (List UInt8) := do
  let packet ← joinSuffix direction fields suffix
  if packet.length < 40 then
    invalidResidue "carried packet suffix follows an incomplete IPv6 header"
  else do
    let nextHeader ← index packet 6
    let packet ← patchLength fields (.ipv6 (.known .ipv6PayloadLength)) 4
      "carried IPv6 payload is too large" packet
    let packet ← patchUpper fields nextHeader packet
    validatePacketLengths packet
    .ok packet

end SchcCore
