import SchcCore.Sid.Registry

/- Typed SCHC rule model. A field identity carries one of the crate's static field names;
   the names the crate itself tests are enumerated, any other one stays a string. -/
namespace SchcCore

inductive Direction where
  | up | down
  deriving DecidableEq, Repr

inductive Position where
  | device | core
  deriving DecidableEq, Repr

inductive DirectionSelector where
  | bidirectional | up | down
  deriving DecidableEq, Repr

def DirectionSelector.accepts : DirectionSelector → Direction → Bool
  | .bidirectional, _ => true
  | .up, .up => true
  | .down, .down => true
  | _, _ => false

structure RuleId where
  value : Nat
  bitLen : Nat
  deriving DecidableEq, Repr

inductive KnownName where
  | ipv6Version | ipv6TrafficClass | ipv6FlowLabel | ipv6PayloadLength | ipv6NextHeader
  | ipv6HopLimit | ipv6DevPrefix | ipv6DevIid | ipv6AppPrefix | ipv6AppIid
  | udpDevPort | udpAppPort | udpLength | udpChecksum | udpPayload
  | coapVersion | coapType | coapTkl | coapCode | coapMid | coapToken | coapPayload
  | icmpv6Type | icmpv6Code | icmpv6Checksum | icmpv6Identifier | icmpv6Sequence
  | icmpv6Mtu | icmpv6Pointer | icmpv6Payload
  deriving DecidableEq, Repr

def KnownName.text : KnownName → String
  | .ipv6Version => "fid-ipv6-version"
  | .ipv6TrafficClass => "fid-ipv6-trafficclass"
  | .ipv6FlowLabel => "fid-ipv6-flowlabel"
  | .ipv6PayloadLength => "fid-ipv6-payload-length"
  | .ipv6NextHeader => "fid-ipv6-nextheader"
  | .ipv6HopLimit => "fid-ipv6-hoplimit"
  | .ipv6DevPrefix => "fid-ipv6-devprefix"
  | .ipv6DevIid => "fid-ipv6-deviid"
  | .ipv6AppPrefix => "fid-ipv6-appprefix"
  | .ipv6AppIid => "fid-ipv6-appiid"
  | .udpDevPort => "fid-udp-dev-port"
  | .udpAppPort => "fid-udp-app-port"
  | .udpLength => "fid-udp-length"
  | .udpChecksum => "fid-udp-checksum"
  | .udpPayload => "fid-udp-payload"
  | .coapVersion => "fid-coap-version"
  | .coapType => "fid-coap-type"
  | .coapTkl => "fid-coap-tkl"
  | .coapCode => "fid-coap-code"
  | .coapMid => "fid-coap-mid"
  | .coapToken => "fid-coap-token"
  | .coapPayload => "fid-coap-payload"
  | .icmpv6Type => "fid-icmpv6-type"
  | .icmpv6Code => "fid-icmpv6-code"
  | .icmpv6Checksum => "fid-icmpv6-checksum"
  | .icmpv6Identifier => "fid-icmpv6-identifier"
  | .icmpv6Sequence => "fid-icmpv6-sequence"
  | .icmpv6Mtu => "fid-icmpv6-mtu"
  | .icmpv6Pointer => "fid-icmpv6-pointer"
  | .icmpv6Payload => "fid-icmpv6-payload"

def KnownName.all : List KnownName :=
  [.ipv6Version, .ipv6TrafficClass, .ipv6FlowLabel, .ipv6PayloadLength, .ipv6NextHeader,
    .ipv6HopLimit, .ipv6DevPrefix, .ipv6DevIid, .ipv6AppPrefix, .ipv6AppIid, .udpDevPort,
    .udpAppPort, .udpLength, .udpChecksum, .udpPayload, .coapVersion, .coapType, .coapTkl,
    .coapCode, .coapMid, .coapToken, .coapPayload, .icmpv6Type, .icmpv6Code,
    .icmpv6Checksum, .icmpv6Identifier, .icmpv6Sequence, .icmpv6Mtu, .icmpv6Pointer,
    .icmpv6Payload]

/-- The `&'static str` of a field identity. -/
inductive FieldName where
  | known (name : KnownName)
  | other (text : { text : String // text ∉ KnownName.all.map KnownName.text })
  deriving DecidableEq

def FieldName.text : FieldName → String
  | .known name => name.text
  | .other text => text.val

inductive FieldRef where
  | ipv6 (name : FieldName)
  | udp (name : FieldName)
  | coap (name : FieldName)
  | icmpv6 (name : FieldName)
  | coapOption (number : Nat)
  | unused
  | payload
  | syntheticCoapMarker
  | unknownSid (sid : Nat)
  deriving DecidableEq

/-- The `Debug` text of a field identity. -/
def FieldRef.debug : FieldRef → String
  | .ipv6 name => s!"Ipv6(\"" ++ name.text ++ "\")"
  | .udp name => s!"Udp(\"" ++ name.text ++ "\")"
  | .coap name => s!"Coap(\"" ++ name.text ++ "\")"
  | .icmpv6 name => s!"Icmpv6(\"" ++ name.text ++ "\")"
  | .coapOption number => "CoapOption \x7b number: " ++ toString number ++ " \x7d"
  | .unused => "Unused"
  | .payload => "Payload"
  | .syntheticCoapMarker => "SyntheticCoapMarker"
  | .unknownSid sid => "UnknownSid(" ++ toString sid ++ ")"

inductive LengthUnit where
  | bytes | bits
  deriving DecidableEq, Repr

inductive FieldLength where
  | fixedBits (bits : Nat)
  | variableBytes
  | variableBits
  | tokenLength
  | fromPreviousField (entryIndex : Nat) (unit : LengthUnit)
  | functionSid (sid : Nat)
  deriving DecidableEq, Repr

inductive TargetValue where
  | none
  | bytes (value : List UInt8)
  | mapping (values : List (List UInt8))
  deriving DecidableEq, Repr

inductive MatchingOperator where
  | equal
  | ignore
  | msb (bits : Nat)
  | matchMapping
  deriving DecidableEq, Repr

inductive Cda where
  | notSent | valueSent | mappingSent | lsb | compute | deviceIid | appIid
  deriving DecidableEq, Repr

inductive RuleNature where
  | compression | noCompression | fragmentation | management
  deriving DecidableEq, Repr

namespace RuleNature

def asStr : RuleNature → String
  | .compression => "compression"
  | .noCompression => "no-compression"
  | .fragmentation => "fragmentation"
  | .management => "management"

def parseIdentifier (value : String) : Option RuleNature :=
  if value = "compression" then some .compression
  else if value = "no-compression" then some .noCompression
  else if value = "fragmentation" then some .fragmentation
  else if value = "management" ∨ value = "nature-management" then some .management
  else none

end RuleNature

structure FieldRule where
  field : FieldRef
  length : FieldLength
  fieldPosition : Nat
  direction : DirectionSelector
  target : TargetValue
  matching : MatchingOperator
  action : Cda
  entryIndex : Nat
  deriving DecidableEq

structure Rule where
  id : RuleId
  fields : List FieldRule
  nature : RuleNature
  deriving DecidableEq

structure RuleSet where
  rules : List Rule
  sidRegistry : SidRegistry

/-- Supplies the values of the external CDAs; a call may fail. -/
abbrev ExternalValueProvider := FieldRef → Direction → Nat → Except SchcError (List UInt8)

end SchcCore
