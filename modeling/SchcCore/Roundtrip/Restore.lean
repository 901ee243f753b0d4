import SchcCore.Packet.Rebuild
import SchcCore.Packet.Target
import SchcCore.Packet.WellFormed
import SchcCore.Compress.Engine

/- Rebuilding a packet from the values of its own fields: from the words of an IPv6 header, of
   UDP and of ICMPv6, with lengths and checksums left to be computed, comes the packet itself. -/
namespace SchcCore
open Outcome Bytes BigEndian BitList FieldStore

/-- The value of `n` in `width` bits. -/
def word (width n : Nat) : FieldValue := .ofBits (ofNat width n)

@[simp] theorem bitLen_word (width n : Nat) : (word width n).bitLen = width := by
  simp [word]

theorem toU64_word {width n : Nat} (narrow : width ≤ 64) (fits : n < 2 ^ width) :
    (word width n).toU64 = .ok n := FieldValue.toU64_ofBits narrow fits

/-- The first value stored for a field in a scope is `n` in `width` bits. -/
def Stores (fields : FieldStore) (scope : PacketScope) (field : FieldRef) (width n : Nat) : Prop :=
  fields.firstByFieldScope field scope = some (word width n)

namespace Stores
variable {fields : FieldStore} {scope : PacketScope} {field : FieldRef} {width n : Nat}

theorem firstValueAt (stored : Stores fields scope field width n) :
    firstValueAt fields field scope = .ok (word width n) := by
  unfold Stores at stored
  simp only [SchcCore.firstValueAt, stored]

theorem firstUsizeAt (stored : Stores fields scope field width n) (narrow : width ≤ 64)
    (fits : n < 2 ^ width) : firstUsizeAt fields field scope = .ok n := by
  rw [SchcCore.firstUsizeAt, stored.firstValueAt, ok_bind, toU64_word narrow fits]

theorem firstU16At (stored : Stores fields scope field width n) (narrow : width ≤ 16)
    (fits : n < 2 ^ width) : firstU16At fields field scope = .ok n := by
  have small : n < 65536 := fits.trans_le (Nat.pow_le_pow_right (by decide) narrow)
  rw [SchcCore.firstU16At, stored.firstValueAt, ok_bind, narrowTo, toU64_word (by omega) fits, ok_bind,
    if_pos small]

theorem firstU8At (stored : Stores fields scope field width n) (narrow : width ≤ 8)
    (fits : n < 2 ^ width) : firstU8At fields field scope = .ok n := by
  have small : n < 256 := fits.trans_le (Nat.pow_le_pow_right (by decide) narrow)
  rw [SchcCore.firstU8At, stored.firstValueAt, ok_bind, narrowTo, toU64_word (by omega) fits, ok_bind,
    if_pos small]

end Stores

/- The IPv6 header. -/

namespace Ipv6Packet
variable (p : Ipv6Packet)

def trafficClass : Nat :=
  ((byteAt p.bytes 0 &&& 0x0f).toNat <<< 4) ||| (byteAt p.bytes 1 >>> 4).toNat

def flowLabel : Nat :=
  ((byteAt p.bytes 1 &&& 0x0f).toNat <<< 16) ||| ((byteAt p.bytes 2).toNat <<< 8) |||
    (byteAt p.bytes 3).toNat

def source : List UInt8 := cut p.bytes 8 24

def destination : List UInt8 := cut p.bytes 24 40

theorem nibbles (b : UInt8) : (b &&& 0x0f).toNat = b.toNat % 16 ∧ (b >>> 4).toNat = b.toNat / 16 := by
  revert b
  apply forall_byte
  decide +kernel

theorem trafficClass_eq :
    p.trafficClass = (byteAt p.bytes 0).toNat % 16 * 16 + (byteAt p.bytes 1).toNat / 16 := by
  have low : (byteAt p.bytes 1).toNat / 16 < 2 ^ 4 := by
    have := (byteAt p.bytes 1).toNat_lt
    omega
  rw [trafficClass, (nibbles _).1, (nibbles _).2, ← Nat.shiftLeft_add_eq_or_of_lt low,
    Nat.shiftLeft_eq]

theorem flowLabel_eq :
    p.flowLabel = (byteAt p.bytes 1).toNat % 16 * 65536 + (byteAt p.bytes 2).toNat * 256 +
      (byteAt p.bytes 3).toNat := by
  have third := (byteAt p.bytes 3).toNat_lt
  have second := (byteAt p.bytes 2).toNat_lt
  have high : (byteAt p.bytes 2).toNat <<< 8 < 2 ^ 16 := by
    rw [Nat.shiftLeft_eq]
    omega
  rw [flowLabel, (nibbles _).1, ← Nat.shiftLeft_add_eq_or_of_lt high]
  have joined : ((byteAt p.bytes 1).toNat % 16) <<< 16 + (byteAt p.bytes 2).toNat <<< 8 =
      ((byteAt p.bytes 1).toNat % 16 * 256 + (byteAt p.bytes 2).toNat) <<< 8 := by
    simp only [Nat.shiftLeft_eq]
    omega
  rw [joined, ← Nat.shiftLeft_add_eq_or_of_lt third, Nat.shiftLeft_eq]
  omega

theorem trafficClass_lt : p.trafficClass < 2 ^ 8 := by
  have := (byteAt p.bytes 1).toNat_lt
  rw [trafficClass_eq]
  omega

theorem flowLabel_lt : p.flowLabel < 2 ^ 20 := by
  have := (byteAt p.bytes 2).toNat_lt
  have := (byteAt p.bytes 3).toNat_lt
  rw [flowLabel_eq]
  omega

theorem version_toNat : (byteAt p.bytes 0).toNat / 16 = 6 := by
  rw [← (nibbles _).2, p.version]
  rfl

theorem length_source : p.source.length = 16 := length_cut (by have := p.header; omega)

theorem length_destination : p.destination.length = 16 := length_cut (by have := p.header; omega)

/-- The first word holds version, traffic class and flow label. -/
theorem firstWord_bytes :
    toBytes 4 ((6 <<< 28) ||| (p.trafficClass <<< 20) ||| p.flowLabel) = cut p.bytes 0 4 := by
  have header := p.header
  have label := p.flowLabel_lt
  have split : cut p.bytes 0 4 =
      [byteAt p.bytes 0, byteAt p.bytes 1, byteAt p.bytes 2, byteAt p.bytes 3] := by
    have front : cut p.bytes 0 2 ++ cut p.bytes 2 4 = cut p.bytes 0 4 :=
      cut_append_cut p.bytes (by decide) (by decide)
    rw [← front, cut_two (by omega), cut_two (by omega)]
    rfl
  have b0 := (byteAt p.bytes 0).toNat_lt
  have b1 := (byteAt p.bytes 1).toNat_lt
  have b2 := (byteAt p.bytes 2).toNat_lt
  have b3 := (byteAt p.bytes 3).toNat_lt
  have version := p.version_toNat
  have byte : ∀ (n : Nat) (b : UInt8), n % 256 = b.toNat → UInt8.ofNat n = b := by
    intro n b same
    apply UInt8.toNat_inj.mp
    simpa using same
  rw [firstWord_eq p.trafficClass_lt (by omega), split, trafficClass_eq, flowLabel_eq]
  simp only [List.cons.injEq, and_true]
  exact ⟨byte _ _ (by omega), byte _ _ (by omega), byte _ _ (by omega), byte _ _ (by omega)⟩

/-- The header in pieces. -/
theorem bytes_split :
    p.bytes = cut p.bytes 0 4 ++ cut p.bytes 4 6 ++ [p.nextHeader, byteAt p.bytes 7] ++ p.source ++
      p.destination ++ p.payload := by
  have header := p.header
  have pair : [p.nextHeader, byteAt p.bytes 7] = cut p.bytes 6 8 := (cut_two (by omega)).symm
  rw [pair, cut_append_cut _ (by decide) (by decide), cut_append_cut _ (by decide) (by decide),
    source, cut_append_cut _ (by decide) (by decide), destination,
    cut_append_cut _ (by decide) (by decide)]
  exact (List.take_append_drop 40 p.bytes).symm

/-- The declared length is the length of the payload. -/
theorem declared_bytes : toBytes 2 p.payload.length = cut p.bytes 4 6 := by
  have header := p.header
  have length := p.length_payload
  have declared := p.declared
  have same : p.payload.length = value [byteAt p.bytes 4, byteAt p.bytes 5] := by omega
  rw [same, toBytes_two, cut_two (by omega)]

/-- The header, with a length of its own, in front of an upper layer. -/
def withUpper (length : Nat) (upper : List UInt8) : List UInt8 :=
  cut p.bytes 0 4 ++ toBytes 2 length ++ [p.nextHeader, byteAt p.bytes 7] ++ p.source ++
    p.destination ++ upper

theorem withUpper_payload : p.withUpper p.payload.length p.payload = p.bytes := by
  rw [withUpper, p.declared_bytes]
  exact p.bytes_split.symm

end Ipv6Packet

/-- An address in two halves. -/
theorem address_halves {address : List UInt8} (length : address.length = 16) :
    toBytes 8 (value (cut address 0 8)) ++ toBytes 8 (value (cut address 8 16)) = address := by
  have first : (cut address 0 8).length = 8 := length_cut (by omega)
  have second : (cut address 8 16).length = 8 := length_cut (by omega)
  have high := toBytes_value (cut address 0 8)
  have low := toBytes_value (cut address 8 16)
  rw [first] at high
  rw [second] at low
  rw [high, low, cut_append_cut _ (by decide) (by decide), ← length, cut_all]

theorem half_lt {address : List UInt8} (length : address.length = 16) {a b : Nat} (half : b = a + 8)
    (inside : b ≤ 16) : value (cut address a b) < 2 ^ 64 := by
  have bound := value_lt (cut address a b)
  have size : (cut address a b).length = 8 := by
    rw [length_cut (by omega)]
    omega
  rw [size] at bound
  exact bound

/-- A store with the header fields of `p` in a scope. -/
structure StoresHeader (fields : FieldStore) (scope : PacketScope) (p : Ipv6Packet)
    (direction : Direction) : Prop where
  version : Stores fields scope (.ipv6 (.known .ipv6Version)) 4 6
  trafficClass : Stores fields scope (.ipv6 (.known .ipv6TrafficClass)) 8 p.trafficClass
  flowLabel : Stores fields scope (.ipv6 (.known .ipv6FlowLabel)) 20 p.flowLabel
  nextHeader : Stores fields scope (.ipv6 (.known .ipv6NextHeader)) 8 p.nextHeader.toNat
  hopLimit : Stores fields scope (.ipv6 (.known .ipv6HopLimit)) 8 (byteAt p.bytes 7).toNat
  devPrefix : Stores fields scope (.ipv6 (.known .ipv6DevPrefix)) 64
    (value (cut (roleAddress p direction .device) 0 8))
  devIid : Stores fields scope (.ipv6 (.known .ipv6DevIid)) 64
    (value (cut (roleAddress p direction .device) 8 16))
  appPrefix : Stores fields scope (.ipv6 (.known .ipv6AppPrefix)) 64
    (value (cut (roleAddress p direction .application) 0 8))
  appIid : Stores fields scope (.ipv6 (.known .ipv6AppIid)) 64
    (value (cut (roleAddress p direction .application) 8 16))

/-- A store with the header fields of `p` in a scope, and no length for it. -/
structure StoresIpv6 (fields : FieldStore) (scope : PacketScope) (p : Ipv6Packet)
    (direction : Direction) : Prop extends StoresHeader fields scope p direction where
  length : fields.firstByFieldScope (.ipv6 (.known .ipv6PayloadLength)) scope = none

theorem endpointAddress_restores {fields : FieldStore} {scope : PacketScope}
    {prefixField iidField : FieldRef} {address : List UInt8} (length : address.length = 16)
    (high : Stores fields scope prefixField 64 (value (cut address 0 8)))
    (low : Stores fields scope iidField 64 (value (cut address 8 16))) :
    endpointAddress fields scope prefixField iidField = .ok address := by
  have highFits := half_lt length (show 8 = 0 + 8 from rfl) (by decide)
  have lowFits := half_lt length (show 16 = 8 + 8 from rfl) (by decide)
  simp only [endpointAddress, high.firstValueAt, low.firstValueAt, ok_bind, fieldU64, bitLen_word,
    ne_eq, not_true_eq_false, ↓reduceIte, toU64_word (Nat.le_refl 64) highFits,
    toU64_word (Nat.le_refl 64) lowFits, address_halves length]

theorem endpointAddresses_restores {fields : FieldStore} {scope : PacketScope} {p : Ipv6Packet}
    {direction : Direction} (stores : StoresHeader fields scope p direction) :
    endpointAddresses direction fields scope = .ok (p.source, p.destination) := by
  have device := endpointAddress_restores (length_roleAddress p direction .device)
    stores.devPrefix stores.devIid
  have application := endpointAddress_restores (length_roleAddress p direction .application)
    stores.appPrefix stores.appIid
  rw [endpointAddresses, device, ok_bind, application, ok_bind]
  cases direction <;> rfl

/-- From the fields of its header comes the header, in front of any upper layer. -/
theorem reconstructIpv6WithUpper_header {fields : FieldStore} {scope : PacketScope}
    {p : Ipv6Packet} {direction : Direction} (stores : StoresHeader fields scope p direction)
    {nextHeader : UInt8} (same : p.nextHeader = nextHeader) {upper filled : List UInt8}
    {compute : Bool} {length : Nat}
    (counted : sentOrCounted (fields.firstByFieldScope (.ipv6 (.known .ipv6PayloadLength)) scope)
      "sent IPv6 payload length does not fit u16" upper.length
      "IPv6 payload is too large to encode length" = .ok length)
    (summed : withChecksum p.source p.destination nextHeader upper compute = .ok filled) :
    reconstructIpv6WithUpper direction fields scope nextHeader upper compute =
      .ok (p.withUpper length filled) := by
  subst same
  have version := stores.version.firstU8At (by decide) (by decide)
  have trafficClass := stores.trafficClass.firstU8At (by decide) p.trafficClass_lt
  have flowLabel := stores.flowLabel.firstUsizeAt (by decide) p.flowLabel_lt
  have hopLimit := stores.hopLimit.firstU8At (by decide) (byteAt p.bytes 7).toNat_lt
  have label := p.flowLabel_lt
  have ranges : ¬ (6 ≠ 6 ∨ p.flowLabel > 0x000fffff) := by omega
  have hop : UInt8.ofNat (byteAt p.bytes 7).toNat = byteAt p.bytes 7 := by simp
  simp only [reconstructIpv6WithUpper, version, trafficClass, flowLabel, hopLimit, counted,
    endpointAddresses_restores stores, ok_bind, ranges, ↓reduceIte, summed, hop, p.firstWord_bytes]
  rfl

/-- From the fields of its header and its upper layer comes the packet. -/
theorem reconstructIpv6WithUpper_restores {fields : FieldStore} {scope : PacketScope}
    {p : Ipv6Packet} {direction : Direction} (stores : StoresIpv6 fields scope p direction)
    {upper : List UInt8} {compute : Bool} (same : upper.length = p.payload.length)
    (filled : withChecksum p.source p.destination p.nextHeader upper compute = .ok p.payload) :
    reconstructIpv6WithUpper direction fields scope p.nextHeader upper compute = .ok p.bytes := by
  have short := p.payload_lt
  have counted : sentOrCounted
      (fields.firstByFieldScope (.ipv6 (.known .ipv6PayloadLength)) scope)
      "sent IPv6 payload length does not fit u16" upper.length
      "IPv6 payload is too large to encode length" = .ok p.payload.length := by
    rw [stores.length, sentOrCounted, same, if_pos short]
  rw [reconstructIpv6WithUpper_header stores.toStoresHeader rfl counted filled, p.withUpper_payload]

/- Checksums. -/

/-- The upper layer with its checksum zeroed. -/
def Ipv6Packet.unsummed (p : Ipv6Packet) : List UInt8 :=
  overwrite p.payload (checksumStart p.nextHeader) [0, 0]

/-- The checksum is the one over the segment with the checksum zeroed. -/
def Ipv6Packet.Checksummed (p : Ipv6Packet) : Prop :=
  cut p.payload (checksumStart p.nextHeader) (checksumStart p.nextHeader + 2) =
    toBytes 2 (transportChecksum p.source p.destination p.nextHeader p.unsummed)

/-- Computing the checksum of the zeroed upper layer restores a checksummed one. -/
theorem withChecksum_restores {p : Ipv6Packet} (summed : p.Checksummed)
    (found : checksumRange p.nextHeader p.payload = .ok (checksumStart p.nextHeader)) :
    withChecksum p.source p.destination p.nextHeader p.unsummed true = .ok p.payload ∧
      p.unsummed.length = p.payload.length := by
  have inside := (checksumRange_ok found).2
  have length : p.unsummed.length = p.payload.length := length_overwrite inside
  have found' : checksumRange p.nextHeader p.unsummed = .ok (checksumStart p.nextHeader) := by
    rw [← found, checksumRange, checksumRange, length]
  refine ⟨?_, length⟩
  rw [withChecksum, if_pos rfl, found', ok_bind, copyInto_eq (by simpa [length] using inside),
    Ipv6Packet.unsummed, overwrite_overwrite (by simp) (by simpa using inside)]
  congr 1
  conv_rhs => rw [← overwrite_self p.payload (Nat.le_add_right (checksumStart p.nextHeader) 2) inside]
  rw [summed]
  rfl

/- UDP. -/

def UdpDatagram.sourcePort (u : UdpDatagram) : Nat := value [byteAt u.bytes 0, byteAt u.bytes 1]

def UdpDatagram.destinationPort (u : UdpDatagram) : Nat :=
  value [byteAt u.bytes 2, byteAt u.bytes 3]

def UdpDatagram.devPort (u : UdpDatagram) : Direction → Nat
  | .up => u.sourcePort
  | .down => u.destinationPort

def UdpDatagram.appPort (u : UdpDatagram) : Direction → Nat
  | .up => u.destinationPort
  | .down => u.sourcePort

theorem UdpDatagram.ports_lt (u : UdpDatagram) (direction : Direction) :
    u.devPort direction < 2 ^ 16 ∧ u.appPort direction < 2 ^ 16 := by
  have source : u.sourcePort < 2 ^ 16 := value_two_lt (byteAt u.bytes 0) (byteAt u.bytes 1)
  have destination : u.destinationPort < 2 ^ 16 :=
    value_two_lt (byteAt u.bytes 2) (byteAt u.bytes 3)
  cases direction with
  | up => exact ⟨source, destination⟩
  | down => exact ⟨destination, source⟩

/-- A store with the ports of `u` in a scope, and neither length nor checksum for it. -/
structure StoresUdp (fields : FieldStore) (scope : PacketScope) (u : UdpDatagram)
    (direction : Direction) : Prop where
  devPort : Stores fields scope (.udp (.known .udpDevPort)) 16 (u.devPort direction)
  appPort : Stores fields scope (.udp (.known .udpAppPort)) 16 (u.appPort direction)
  length : fields.firstByFieldScope (.udp (.known .udpLength)) scope = none
  checksum : fields.firstByFieldScope (.udp (.known .udpChecksum)) scope = none

/-- The datagram in pieces, its checksum zeroed. -/
theorem UdpDatagram.unsummed_split (u : UdpDatagram) :
    overwrite u.bytes 6 [0, 0] = toBytes 2 u.sourcePort ++ toBytes 2 u.destinationPort ++
      toBytes 2 u.bytes.length ++ toBytes 2 0 ++ u.payload := by
  have header := u.header
  have declared := u.declared
  have source : toBytes 2 u.sourcePort = cut u.bytes 0 2 := by
    rw [sourcePort, toBytes_two, cut_two (by omega)]
  have destination : toBytes 2 u.destinationPort = cut u.bytes 2 4 := by
    rw [destinationPort, toBytes_two, cut_two (by omega)]
  have length : toBytes 2 u.bytes.length = cut u.bytes 4 6 := by
    rw [← declared, toBytes_two, cut_two (by omega)]
  rw [source, destination, length, cut_append_cut _ (by decide) (by decide),
    cut_append_cut _ (by decide) (by decide)]
  rfl

/-- From the ports and the payload comes the datagram, its checksum still to be computed. -/
theorem reconstructUdp_restores {fields : FieldStore} {scope : PacketScope} {u : UdpDatagram}
    {direction : Direction} (stores : StoresUdp fields scope u direction) {coap : List UInt8}
    (carried : carriedCoap fields scope = .ok coap)
    (payload : udpPayload fields scope coap = .ok u.payload) (short : u.bytes.length < 65536) :
    reconstructUdp direction fields scope = .ok (overwrite u.bytes 6 [0, 0], true) := by
  have fits := u.ports_lt direction
  have devPort := stores.devPort.firstU16At (by decide) fits.1
  have appPort := stores.appPort.firstU16At (by decide) fits.2
  have size : 8 + u.payload.length = u.bytes.length := by
    have := u.length_payload
    omega
  have counted : sentOrCounted none "sent UDP length does not fit u16" u.bytes.length
      "UDP payload is too large to encode length" = .ok u.bytes.length := by
    rw [sentOrCounted, if_pos short]
  simp only [reconstructUdp, carried, ok_bind, devPort, appPort, payload, stores.length, size,
    counted, stores.checksum, sentOrZero, u.unsummed_split]
  cases direction <;> rfl

/- CoAP. -/

/-- A store with the fields, options and payload of a CoAP message. -/
structure StoresCoap (fields : FieldStore) (m : CoapMessage) : Prop where
  version : Stores fields .outer (.coap (.known .coapVersion)) 2 m.version.toNat
  messageType : Stores fields .outer (.coap (.known .coapType)) 2 m.messageType.toNat
  tokenLength : Stores fields .outer (.coap (.known .coapTkl)) 4 m.token.length
  code : Stores fields .outer (.coap (.known .coapCode)) 8 m.code.toNat
  messageId : Stores fields .outer (.coap (.known .coapMid)) 16 m.messageId.toNat
  token : fields.firstByFieldScope (.coap (.known .coapToken)) .outer =
    some (.ofBits (ofBytes m.token))
  options : coapOptions .outer fields = .ok m.options
  payload : sharedPayload fields .outer (.coap (.known .coapPayload)) = .ok m.payload

theorem fromParts_bounds {version messageType code : UInt8} {messageId : UInt16}
    {token payload : List UInt8} {options : List CoapOption} {m : CoapMessage}
    (made : CoapMessage.fromParts version messageType code messageId token options payload = .ok m) :
    version ≤ 3 ∧ messageType ≤ 3 ∧ token.length ≤ 8 := by
  simp only [CoapMessage.fromParts, reject_eq_ok (packetError_ne_ok _ _)] at made
  obtain ⟨version, messageType, token, -⟩ := made
  refine ⟨?_, ?_, by omega⟩
  · simpa using version
  · simpa using messageType

/-- From its fields comes the encoding of a parsed CoAP message. -/
theorem reconstructCoap_restores {fields : FieldStore} {m : CoapMessage} {encoded : List UInt8}
    (parsed : CoapMessage.parse encoded = .ok m) (stores : StoresCoap fields m) :
    reconstructCoap fields .outer = .ok encoded := by
  obtain ⟨written, made⟩ := CoapMessage.toVec_of_parse parsed
  obtain ⟨versionSmall, typeSmall, tokenShort⟩ := fromParts_bounds made
  have version : m.version.toNat ≤ 3 := versionSmall
  have messageType : m.messageType.toNat ≤ 3 := typeSmall
  have idSmall : m.messageId.toNat < 2 ^ 16 := m.messageId.toNat_lt
  have codeSmall : m.code.toNat < 2 ^ 8 := m.code.toNat_lt
  have readVersion := stores.version.firstU8At (by decide) (by omega)
  have readType := stores.messageType.firstU8At (by decide) (by omega)
  have readLength := stores.tokenLength.firstU8At (by decide) (by omega)
  have readCode := stores.code.firstU8At (by decide) codeSmall
  have readId := stores.messageId.firstU16At (by decide) idSmall
  have ranges : ¬ (m.version.toNat > 3 ∨ m.messageType.toNat > 3 ∨ m.token.length > 8) := by omega
  have token : coapToken fields .outer m.token.length = .ok m.token := by
    have aligned : ¬ (FieldValue.ofBits (ofBytes m.token)).bitLen ≠ m.token.length * 8 := by
      rw [FieldValue.bitLen_ofBits, length_ofBytes]
      omega
    have blank : ¬ (m.token.length = 0 ∧ (FieldValue.ofBits (ofBytes m.token)).bytes ≠ []) := by
      rintro ⟨none, some⟩
      rw [FieldValue.bytes_ofBits_ofBytes] at some
      exact some (List.length_eq_zero_iff.mp none)
    simp only [coapToken, stores.token]
    rw [if_neg aligned, if_neg blank, FieldValue.bytes_ofBits_ofBytes]
  simp only [reconstructCoap, readVersion, readType, readLength, readCode, readId, ok_bind]
  rw [if_neg ranges, token, ok_bind, stores.options, ok_bind, stores.payload, ok_bind]
  simp only [UInt8.ofNat_toNat, UInt16.ofNat_toNat, made, ok_bind, written]

/- ICMPv6. -/

/-- A store with the type and code of a message, and no checksum for it. -/
structure StoresIcmpv6 (fields : FieldStore) (m : Icmpv6Message) : Prop where
  messageType : Stores fields .outer (.icmpv6 (.known .icmpv6Type)) 8 m.messageType.toNat
  code : Stores fields .outer (.icmpv6 (.known .icmpv6Code)) 8 (byteAt m.bytes 1).toNat
  checksum : fields.firstByFieldScope (.icmpv6 (.known .icmpv6Checksum)) .outer = none

/-- The message in pieces, its checksum zeroed. -/
theorem Icmpv6Message.unsummed_split (m : Icmpv6Message) :
    overwrite m.bytes 2 [0, 0] =
      [m.messageType, byteAt m.bytes 1] ++ toBytes 2 0 ++ m.bytes.drop 4 := by
  have four := m.four_le
  have front : [m.messageType, byteAt m.bytes 1] = cut m.bytes 0 2 := (cut_two (by omega)).symm
  rw [front]
  rfl

theorem reconstructIcmpv6_restores {fields : FieldStore} {m : Icmpv6Message}
    (stores : StoresIcmpv6 fields m) (inner : Result (List UInt8))
    (ordinary : isIcmpv6ErrorType m.messageType = false) {words : List UInt8}
    (echo : echoWords fields .outer m.messageType = .ok words)
    (payload : sharedPayload fields .outer (.icmpv6 (.known .icmpv6Payload)) = .ok m.payload)
    (split : words ++ m.payload = m.bytes.drop 4) :
    reconstructIcmpv6 inner fields .outer = .ok (overwrite m.bytes 2 [0, 0], true) := by
  have messageType := stores.messageType.firstU8At (by decide) m.messageType.toNat_lt
  have code := stores.code.firstU8At (by decide) (byteAt m.bytes 1).toNat_lt
  simp only [reconstructIcmpv6, messageType, code, stores.checksum, sentOrZero, ok_bind,
    UInt8.ofNat_toNat, ordinary, Bool.false_eq_true, ↓reduceIte, payload, echo, m.unsummed_split]
  rw [List.append_assoc, split]

theorem reconstructIcmpv6_restores_error {fields : FieldStore} {m : Icmpv6Message}
    (stores : StoresIcmpv6 fields m) {inner : Result (List UInt8)}
    (error : isIcmpv6ErrorType m.messageType) {body : List UInt8} {typeWord : FieldValue}
    (found : icmpv6TypeWord fields .outer m.messageType = .ok typeWord)
    (wide : typeWord.bitLen = 32) (carried : icmpv6ErrorBody inner fields .outer = .ok body)
    (split : typeWord.bytes ++ body = m.bytes.drop 4) :
    reconstructIcmpv6 inner fields .outer = .ok (overwrite m.bytes 2 [0, 0], true) := by
  have messageType := stores.messageType.firstU8At (by decide) m.messageType.toNat_lt
  have code := stores.code.firstU8At (by decide) (byteAt m.bytes 1).toNat_lt
  have size : typeWord.bytes.length = 4 := by
    rw [typeWord.size, wide]
  have whole : ¬ (typeWord.bitLen ≠ 32 ∨ typeWord.bytes.length ≠ 4) := by omega
  simp only [reconstructIcmpv6, messageType, code, stores.checksum, sentOrZero, ok_bind,
    UInt8.ofNat_toNat, error, ↓reduceIte, found, m.unsummed_split]
  rw [if_neg whole, carried, ok_bind, List.append_assoc, split]

/- Packets. -/

theorem reconstructPacketAt_restores_udp {fields : FieldStore} {scope : PacketScope}
    {p : Ipv6Packet} {direction : Direction} (stores : StoresIpv6 fields scope p direction)
    (udp : p.nextHeader = 17) (summed : p.Checksummed) {u : UdpDatagram}
    (parsed : UdpDatagram.parse p.payload = .ok u)
    (rebuilt : reconstructUdp direction fields scope = .ok (overwrite u.bytes 6 [0, 0], true))
    (depth : Nat) : reconstructPacketAt (depth + 1) direction fields scope = .ok p.bytes := by
  have nextHeader := stores.nextHeader.firstU8At (by decide) p.nextHeader.toNat_lt
  have seventeen : p.nextHeader.toNat = 17 := by rw [udp]; rfl
  have bytes := UdpDatagram.parse_eq_ok.mp parsed
  have header := u.header
  rw [bytes] at rebuilt header
  have found : checksumRange p.nextHeader p.payload = .ok (checksumStart p.nextHeader) := by
    rw [checksumRange, if_pos ⟨udp, header⟩, checksumStart, if_pos udp]
  obtain ⟨filled, length⟩ := withChecksum_restores summed found
  have upper : overwrite p.payload 6 [0, 0] = p.unsummed := by
    rw [Ipv6Packet.unsummed, checksumStart, if_pos udp]
  have done := reconstructIpv6WithUpper_restores stores length filled
  rw [udp] at done
  rw [reconstructPacketAt, nextHeader, ok_bind, if_pos seventeen, rebuilt, ok_bind, upper]
  exact done

theorem reconstructPacketAt_restores_icmpv6 {fields : FieldStore} {p : Ipv6Packet}
    {direction : Direction} (stores : StoresIpv6 fields .outer p direction)
    (icmpv6 : p.nextHeader = 58) (summed : p.Checksummed) {m : Icmpv6Message}
    (parsed : Icmpv6Message.parse p.payload = .ok m) {depth : Nat}
    (rebuilt : reconstructIcmpv6
      (reconstructPacketAt depth (reverseDirection direction) fields .embedded) fields .outer =
        .ok (overwrite m.bytes 2 [0, 0], true)) :
    reconstructPacketAt (depth + 1) direction fields .outer = .ok p.bytes := by
  have nextHeader := stores.nextHeader.firstU8At (by decide) p.nextHeader.toNat_lt
  have other : ¬ p.nextHeader.toNat = 17 := by rw [icmpv6]; decide
  have fiftyEight : p.nextHeader.toNat = 58 := by rw [icmpv6]; rfl
  have bytes := Icmpv6Message.parse_eq_ok.mp parsed
  have four := m.four_le
  rw [bytes] at rebuilt four
  have notUdp : ¬ p.nextHeader = 17 := by rw [icmpv6]; decide
  have found : checksumRange p.nextHeader p.payload = .ok (checksumStart p.nextHeader) := by
    rw [checksumRange, if_neg (fun both => notUdp both.1), if_pos ⟨icmpv6, four⟩, checksumStart,
      if_neg notUdp]
  obtain ⟨filled, length⟩ := withChecksum_restores summed found
  have upper : overwrite p.payload 2 [0, 0] = p.unsummed := by
    rw [Ipv6Packet.unsummed, checksumStart, if_neg notUdp]
  have done := reconstructIpv6WithUpper_restores stores length filled
  rw [icmpv6] at done
  rw [reconstructPacketAt, nextHeader, ok_bind, if_neg other, if_pos fiftyEight, rebuilt, ok_bind,
    upper]
  exact done

end SchcCore
