import SchcCore.Error

/- IPv6, UDP and ICMPv6 parsing. A parsed value carries what its parser checked, so that its
   accessors stay inside the bytes. -/
namespace SchcCore
open Outcome Bytes
open BigEndian (value value_two_lt)

structure Ipv6Packet where
  bytes : List UInt8
  header : 40 ≤ bytes.length
  version : byteAt bytes 0 >>> 4 = 6
  declared : 40 + value [byteAt bytes 4, byteAt bytes 5] = bytes.length

namespace Ipv6Packet

def parse (input : List UInt8) : Result Ipv6Packet :=
  if header : input.length < 40 then packetError "IPv6" "packet shorter than 40-byte header"
  else if version : byteIn input 0 (by omega) >>> 4 ≠ 6 then
    packetError "IPv6" "version is not 6"
  else
    let payloadLen := value [byteIn input 4 (by omega), byteIn input 5 (by omega)]
    if longer : 40 + payloadLen > input.length then
      packetError "IPv6" "payload length exceeds available bytes"
    else if shorter : 40 + payloadLen < input.length then
      packetError "IPv6" "payload length is smaller than available bytes"
    else
      have declared : 40 + payloadLen = input.length := by omega
      .ok ⟨input, by omega, not_not.mp version, declared⟩

theorem inside (p : Ipv6Packet) {i : Nat} (small : i < 40) : i < p.bytes.length :=
  small.trans_le p.header

theorem addresses (p : Ipv6Packet) {stop : Nat} (small : stop ≤ 40) : stop ≤ p.bytes.length :=
  small.trans p.header

def nextHeader (p : Ipv6Packet) : UInt8 := byteIn p.bytes 6 (p.inside (by decide))

theorem nextHeader_eq (p : Ipv6Packet) : p.nextHeader = byteAt p.bytes 6 := rfl

def payload (p : Ipv6Packet) : List UInt8 := tailIn p.bytes 40 p.header

theorem parse_eq_ok {input : List UInt8} {p : Ipv6Packet} :
    parse input = .ok p ↔ p.bytes = input := by
  unfold parse
  constructor
  · intro parsed
    split at parsed
    · simp at parsed
    · split at parsed
      · simp at parsed
      · dsimp only at parsed
        split at parsed
        · simp at parsed
        · split at parsed
          · simp at parsed
          · cases parsed
            rfl
  · rintro rfl
    have header := p.header
    have version := p.version
    have declared := p.declared
    simp [version, declared, Nat.not_lt.mpr header]

@[simp] theorem parse_bytes (p : Ipv6Packet) : parse p.bytes = .ok p := parse_eq_ok.mpr rfl

/-- The accepted byte strings. -/
theorem parse_isOk_iff (input : List UInt8) :
    (∃ p, parse input = .ok p) ↔
      40 ≤ input.length ∧ byteAt input 0 >>> 4 = 6 ∧
        40 + value [byteAt input 4, byteAt input 5] = input.length := by
  constructor
  · rintro ⟨p, parsed⟩
    cases parse_eq_ok.mp parsed
    exact ⟨p.header, p.version, p.declared⟩
  · rintro ⟨header, version, declared⟩
    exact ⟨⟨input, header, version, declared⟩, parse_eq_ok.mpr rfl⟩

theorem length_payload (p : Ipv6Packet) : p.payload.length + 40 = p.bytes.length := by
  have := p.header
  simp only [payload, List.length_drop]
  omega

theorem payload_lt (p : Ipv6Packet) : p.payload.length < 65536 := by
  have length := p.length_payload
  have declared := p.declared
  have := value_two_lt (byteAt p.bytes 4) (byteAt p.bytes 5)
  omega

theorem safe_parse (input : List UInt8) : Safe (parse input) := by
  unfold parse
  split
  · exact safe_packetError _ _
  · split
    · exact safe_packetError _ _
    · dsimp only
      split
      · exact safe_packetError _ _
      · split
        · exact safe_packetError _ _
        · exact safe_ok _

end Ipv6Packet

structure UdpDatagram where
  bytes : List UInt8
  header : 8 ≤ bytes.length
  declared : value [byteAt bytes 4, byteAt bytes 5] = bytes.length

namespace UdpDatagram

def parse (input : List UInt8) : Result UdpDatagram :=
  if header : input.length < 8 then packetError "UDP" "datagram shorter than 8-byte header"
  else
    let length := value [byteIn input 4 (by omega), byteIn input 5 (by omega)]
    if small : length < 8 then packetError "UDP" "length is smaller than 8 bytes"
    else if longer : length > input.length then
      packetError "UDP" "length exceeds available bytes"
    else if shorter : length < input.length then
      packetError "UDP" "length is smaller than available bytes"
    else
      have declared : length = input.length := by omega
      .ok ⟨input, by omega, declared⟩

theorem inside (u : UdpDatagram) {i : Nat} (small : i < 8) : i < u.bytes.length :=
  small.trans_le u.header

def payload (u : UdpDatagram) : List UInt8 := tailIn u.bytes 8 u.header

theorem parse_eq_ok {input : List UInt8} {u : UdpDatagram} :
    parse input = .ok u ↔ u.bytes = input := by
  unfold parse
  constructor
  · intro parsed
    split at parsed
    · simp at parsed
    · dsimp only at parsed
      split at parsed
      · simp at parsed
      · split at parsed
        · simp at parsed
        · split at parsed
          · simp at parsed
          · cases parsed
            rfl
  · rintro rfl
    have header := u.header
    have declared := u.declared
    simp [declared, Nat.not_lt.mpr header]

@[simp] theorem parse_bytes (u : UdpDatagram) : parse u.bytes = .ok u := parse_eq_ok.mpr rfl

theorem parse_isOk_iff (input : List UInt8) :
    (∃ u, parse input = .ok u) ↔
      8 ≤ input.length ∧ value [byteAt input 4, byteAt input 5] = input.length := by
  constructor
  · rintro ⟨u, parsed⟩
    cases parse_eq_ok.mp parsed
    exact ⟨u.header, u.declared⟩
  · rintro ⟨header, declared⟩
    exact ⟨⟨input, header, declared⟩, parse_eq_ok.mpr rfl⟩

theorem length_payload (u : UdpDatagram) : u.payload.length + 8 = u.bytes.length := by
  have := u.header
  simp only [payload, List.length_drop]
  omega

theorem safe_parse (input : List UInt8) : Safe (parse input) := by
  unfold parse
  split
  · exact safe_packetError _ _
  · dsimp only
    split
    · exact safe_packetError _ _
    · split
      · exact safe_packetError _ _
      · split
        · exact safe_packetError _ _
        · exact safe_ok _

end UdpDatagram

def isIcmpv6ErrorType (messageType : UInt8) : Bool := 1 ≤ messageType && messageType ≤ 4

def hasIcmpv6UnusedField (messageType : UInt8) : Bool := messageType = 1 || messageType = 3

def isEchoType (messageType : UInt8) : Bool := messageType = 128 || messageType = 129

/-- Where the payload of a message of this type starts. -/
def icmpv6PayloadOffset (messageType : UInt8) : Nat :=
  if isEchoType messageType || isIcmpv6ErrorType messageType then 8 else 4

structure Icmpv6Message where
  bytes : List UInt8
  header : icmpv6PayloadOffset (byteAt bytes 0) ≤ bytes.length

namespace Icmpv6Message

def parse (input : List UInt8) : Result Icmpv6Message :=
  if short : input.length < 4 then packetError "ICMPv6" "message shorter than 4-byte header"
  else if header : input.length < icmpv6PayloadOffset (byteIn input 0 (by omega)) then
    packetError "ICMPv6" "message shorter than type-specific header"
  else .ok ⟨input, not_lt.mp header⟩

theorem four_le_payloadOffset (messageType : UInt8) : 4 ≤ icmpv6PayloadOffset messageType := by
  unfold icmpv6PayloadOffset
  split <;> omega

theorem four_le (m : Icmpv6Message) : 4 ≤ m.bytes.length :=
  (four_le_payloadOffset _).trans m.header

theorem inside (m : Icmpv6Message) {i : Nat} (small : i < 4) : i < m.bytes.length :=
  small.trans_le m.four_le

def messageType (m : Icmpv6Message) : UInt8 := byteIn m.bytes 0 (m.inside (by decide))

def isEcho (m : Icmpv6Message) : Bool := isEchoType m.messageType

def payloadOffset (m : Icmpv6Message) : Nat := icmpv6PayloadOffset m.messageType

def payload (m : Icmpv6Message) : List UInt8 := tailIn m.bytes m.payloadOffset m.header

theorem payload_eq (m : Icmpv6Message) : m.payload = m.bytes.drop m.payloadOffset := rfl

theorem parse_eq_ok {input : List UInt8} {m : Icmpv6Message} :
    parse input = .ok m ↔ m.bytes = input := by
  unfold parse
  constructor
  · intro parsed
    split at parsed
    · simp at parsed
    · split at parsed
      · simp at parsed
      · cases parsed
        rfl
  · rintro rfl
    have header := m.header
    have four := m.four_le
    simp [Nat.not_lt.mpr header, Nat.not_lt.mpr four]

theorem parse_isOk_iff (input : List UInt8) :
    (∃ m, parse input = .ok m) ↔ icmpv6PayloadOffset (byteAt input 0) ≤ input.length := by
  constructor
  · rintro ⟨m, parsed⟩
    cases parse_eq_ok.mp parsed
    exact m.header
  · intro header
    exact ⟨⟨input, header⟩, parse_eq_ok.mpr rfl⟩

theorem safe_parse (input : List UInt8) : Safe (parse input) := by
  unfold parse
  split
  · exact safe_packetError _ _
  · split
    · exact safe_packetError _ _
    · exact safe_ok _

end Icmpv6Message

/-- Lengths that an IPv6 packet and its UDP datagram declare; other bytes pass. -/
def validatePacketLengths (packet : List UInt8) : Result Unit :=
  if packet.length ≥ 40 ∧ byteAt packet 0 >>> 4 = 6 then do
    let ipv6 ← Ipv6Packet.parse packet
    if ipv6.nextHeader = 17 then
      let _ ← UdpDatagram.parse ipv6.payload
      .ok ()
    else .ok ()
  else .ok ()

theorem safe_validatePacketLengths (packet : List UInt8) : Safe (validatePacketLengths packet) := by
  unfold validatePacketLengths
  refine safe_ite (fun _ => ?_) (fun _ => safe_ok _)
  refine safe_bind (Ipv6Packet.safe_parse packet) fun ipv6 _ => ?_
  exact safe_ite (fun _ => safe_bind (UdpDatagram.safe_parse _) fun _ _ => safe_ok _)
    (fun _ => safe_ok _)

inductive PacketScope where
  | outer | embedded
  deriving DecidableEq, Repr

/-- The `Debug` text of a scope. -/
def PacketScope.debug : PacketScope → String
  | .outer => "Outer"
  | .embedded => "Embedded"

/-- The IPv6 packet that an ICMPv6 error carries, cut to its own declared length. -/
def embeddedIpv6Packet (packet : List UInt8) : Result (List UInt8) := do
  let ipv6 ← Ipv6Packet.parse packet
  if ipv6.nextHeader ≠ 58 then
    packetError "ICMPv6" "embedded packet requires an ICMPv6 next header"
  else
    let icmp ← Icmpv6Message.parse ipv6.payload
    if ¬ isIcmpv6ErrorType icmp.messageType then
      packetError "ICMPv6" "embedded packet requires an ICMPv6 error type"
    else if icmp.payload.length < 4 then
      packetError "ICMPv6" "error header is shorter than 8 bytes"
    else
      let embedded ← Ipv6Packet.parse icmp.payload
      .ok embedded.bytes

def packetForScope (packet : List UInt8) : PacketScope → Result (List UInt8)
  | .outer => do
      let ipv6 ← Ipv6Packet.parse packet
      .ok ipv6.bytes
  | .embedded => embeddedIpv6Packet packet

/-- On a packet that parses, the outer scope is the packet itself. -/
theorem packetForScope_outer (p : Ipv6Packet) : packetForScope p.bytes .outer = .ok p.bytes := by
  simp [packetForScope]

end SchcCore
