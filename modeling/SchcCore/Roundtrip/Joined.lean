import SchcCore.Roundtrip.Stored

/- A packet rebuilt from some of its fields and the bytes that follow them. Whatever stands in
   its lengths and its checksum before the last step, the packet comes out of it, but for a
   checksum that was left to be computed. -/
namespace SchcCore
open Outcome Bytes BigEndian BitList FieldStore

/- A header in front of an upper layer. -/

namespace Ipv6Packet
variable (p : Ipv6Packet)

theorem length_withUpper (length : Nat) (upper : List UInt8) :
    (p.withUpper length upper).length = 40 + upper.length := by
  have front : (cut p.bytes 0 4).length = 4 := length_cut (p.addresses (by decide))
  simp only [withUpper, List.length_append, front, length_toBytes, List.length_cons,
    List.length_nil, p.length_source, p.length_destination]

theorem withUpper_append (length : Nat) (upper suffix : List UInt8) :
    p.withUpper length upper ++ suffix = p.withUpper length (upper ++ suffix) := by
  simp only [withUpper, List.append_assoc]

theorem drop_withUpper (length : Nat) (upper : List UInt8) :
    (p.withUpper length upper).drop 40 = upper := by
  have front : p.withUpper length upper = p.withUpper length [] ++ upper := by
    rw [p.withUpper_append, List.nil_append]
  have size : (p.withUpper length []).length = 40 := p.length_withUpper length []
  rw [front, ← size, List.drop_left]

/-- The length stands at the fourth byte. -/
theorem overwrite_length (old length : Nat) (upper : List UInt8) :
    overwrite (p.withUpper old upper) 4 (toBytes 2 length) = p.withUpper length upper := by
  have front : (cut p.bytes 0 4).length = 4 := length_cut (p.addresses (by decide))
  have middle : (toBytes 2 old).length = (toBytes 2 length).length := by
    rw [length_toBytes, length_toBytes]
  have written := overwrite_middle (cut p.bytes 0 4)
    ([p.nextHeader, byteAt p.bytes 7] ++ p.source ++ p.destination ++ upper) middle
  rw [front] at written
  simpa only [withUpper, List.append_assoc] using written

theorem overwrite_upper (length start : Nat) (upper new : List UInt8) :
    overwrite (p.withUpper length upper) (40 + start) new =
      p.withUpper length (overwrite upper start new) := by
  have split : ∀ rest, p.withUpper length rest = p.withUpper length [] ++ rest := by
    intro rest
    rw [p.withUpper_append, List.nil_append]
  have size : (p.withUpper length []).length = 40 := p.length_withUpper length []
  rw [split upper, split (overwrite upper start new), ← size, overwrite_append_right]

theorem overwrite_payload (start : Nat) (new : List UInt8) :
    p.withUpper p.payload.length (overwrite p.payload start new) =
      overwrite p.bytes (40 + start) new := by
  rw [← overwrite_upper, withUpper_payload]

/-- The packet with its checksum computed over everything else. -/
def resummed : List UInt8 :=
  overwrite p.bytes (40 + checksumStart p.nextHeader)
    (toBytes 2 (transportChecksum p.source p.destination p.nextHeader p.unsummed))

/-- The packet as it comes out of a store: the checksum is computed unless the store has it. -/
def recomputed (fields : FieldStore) (scope : PacketScope) : List UInt8 :=
  if fields.containsFieldScope (checksumField p.nextHeader) scope then p.bytes else p.resummed

theorem drop_bytes : p.bytes.drop 40 = p.payload := rfl

/-- The upper layer has room for its checksum. -/
def HasChecksum : Prop := checksumStart p.nextHeader + 2 ≤ p.payload.length

variable {p}

theorem HasChecksum.inside (room : p.HasChecksum) :
    40 + checksumStart p.nextHeader + 2 ≤ p.bytes.length := by
  have length := p.length_payload
  unfold HasChecksum at room
  omega

theorem length_resummed (room : p.HasChecksum) : p.resummed.length = p.bytes.length := by
  have inside := room.inside
  exact length_overwrite (by simpa using inside)

theorem length_recomputed (room : p.HasChecksum) (fields : FieldStore) (scope : PacketScope) :
    (p.recomputed fields scope).length = p.bytes.length := by
  unfold recomputed
  split
  · rfl
  · exact length_resummed room

/-- Computing the checksum changes nothing but the checksum. -/
theorem byteAt_recomputed (room : p.HasChecksum) (fields : FieldStore) (scope : PacketScope)
    {i : Nat} (outside : i < 40 + checksumStart p.nextHeader ∨
      40 + checksumStart p.nextHeader + 2 ≤ i) :
    byteAt (p.recomputed fields scope) i = byteAt p.bytes i := by
  have inside := room.inside
  unfold recomputed
  split
  · rfl
  · exact byteAt_overwrite_outside (by simpa using inside) (by simpa using outside)

/-- A checksum is computed to itself exactly when it holds. -/
theorem resummed_eq_iff (room : p.HasChecksum) : p.resummed = p.bytes ↔ p.Checksummed := by
  have inside := room.inside
  have own : cut p.bytes (40 + checksumStart p.nextHeader) (40 + checksumStart p.nextHeader + 2) =
      cut p.payload (checksumStart p.nextHeader) (checksumStart p.nextHeader + 2) := by
    rw [← p.drop_bytes, cut_drop]
    rfl
  rw [Checksummed, ← own]
  constructor
  · intro same
    have written := congrArg (fun bytes : List UInt8 =>
      cut bytes (40 + checksumStart p.nextHeader) (40 + checksumStart p.nextHeader + 2)) same
    have here : cut p.resummed (40 + checksumStart p.nextHeader)
        (40 + checksumStart p.nextHeader + 2) = toBytes 2
          (transportChecksum p.source p.destination p.nextHeader p.unsummed) :=
      cut_overwrite_same (by simpa using inside)
    rw [← here]
    exact written.symm
  · intro summed
    rw [resummed, ← summed]
    exact overwrite_self _ (by omega) inside

end Ipv6Packet

/- Segments. -/

/-- The ports of the datagram in front of another length, checksum and payload. -/
def UdpDatagram.segment (u : UdpDatagram) (length checksum : Nat) (payload : List UInt8) :
    List UInt8 :=
  toBytes 2 u.sourcePort ++ toBytes 2 u.destinationPort ++ toBytes 2 length ++
    toBytes 2 checksum ++ payload

/-- Type and code of the message in front of another checksum and other content. -/
def Icmpv6Message.segment (m : Icmpv6Message) (checksum : Nat) (content : List UInt8) :
    List UInt8 :=
  [m.messageType, byteAt m.bytes 1] ++ toBytes 2 checksum ++ content

namespace UdpDatagram
variable (u : UdpDatagram)

theorem length_segment (length checksum : Nat) (payload : List UInt8) :
    (u.segment length checksum payload).length = 8 + payload.length := by
  simp only [segment, List.length_append, length_toBytes]

theorem segment_append (length checksum : Nat) (payload suffix : List UInt8) :
    u.segment length checksum payload ++ suffix = u.segment length checksum (payload ++ suffix) := by
  simp only [segment, List.append_assoc]

theorem overwrite_segment_length (old length checksum : Nat) (payload : List UInt8) :
    overwrite (u.segment old checksum payload) 4 (toBytes 2 length) =
      u.segment length checksum payload := by
  have middle : (toBytes 2 old).length = (toBytes 2 length).length := by
    rw [length_toBytes, length_toBytes]
  have written := overwrite_middle (toBytes 2 u.sourcePort ++ toBytes 2 u.destinationPort)
    (toBytes 2 checksum ++ payload) middle
  simpa only [segment, List.append_assoc, List.length_append, length_toBytes] using written

theorem overwrite_segment_checksum (length old checksum : Nat) (payload : List UInt8) :
    overwrite (u.segment length old payload) 6 (toBytes 2 checksum) =
      u.segment length checksum payload := by
  have middle : (toBytes 2 old).length = (toBytes 2 checksum).length := by
    rw [length_toBytes, length_toBytes]
  have written := overwrite_middle
    (toBytes 2 u.sourcePort ++ toBytes 2 u.destinationPort ++ toBytes 2 length) payload
    middle
  simpa only [segment, List.append_assoc, List.length_append, length_toBytes] using written

/-- With its own length and payload, the segment is the datagram but for the checksum. -/
theorem segment_payload (checksum : Nat) :
    u.segment u.bytes.length checksum u.payload = overwrite u.bytes 6 (toBytes 2 checksum) := by
  have header := u.header
  have zeroed : overwrite (overwrite u.bytes 6 [0, 0]) 6 (toBytes 2 checksum) =
      overwrite u.bytes 6 (toBytes 2 checksum) := overwrite_overwrite rfl (by simpa using header)
  rw [← zeroed, u.unsummed_split]
  exact (u.overwrite_segment_checksum u.bytes.length 0 checksum u.payload).symm

theorem checksum_bytes : toBytes 2 u.checksum = cut u.bytes 6 8 := by
  have header := u.header
  rw [checksum, toBytes_two, cut_two (by omega)]

end UdpDatagram

namespace Icmpv6Message
variable (m : Icmpv6Message)

theorem length_segment (checksum : Nat) (content : List UInt8) :
    (m.segment checksum content).length = 4 + content.length := by
  simp only [segment, List.length_append, length_toBytes, List.length_cons, List.length_nil]

theorem segment_append (checksum : Nat) (content suffix : List UInt8) :
    m.segment checksum content ++ suffix = m.segment checksum (content ++ suffix) := by
  simp only [segment, List.append_assoc]

theorem overwrite_segment_checksum (old checksum : Nat) (content : List UInt8) :
    overwrite (m.segment old content) 2 (toBytes 2 checksum) = m.segment checksum content := by
  have middle : (toBytes 2 old).length = (toBytes 2 checksum).length := by
    rw [length_toBytes, length_toBytes]
  exact overwrite_middle [m.messageType, byteAt m.bytes 1] content middle

/-- With its own content, the segment is the message but for the checksum. -/
theorem segment_content (checksum : Nat) :
    m.segment checksum (m.bytes.drop 4) = overwrite m.bytes 2 (toBytes 2 checksum) := by
  have four := m.four_le
  have zeroed : overwrite (overwrite m.bytes 2 [0, 0]) 2 (toBytes 2 checksum) =
      overwrite m.bytes 2 (toBytes 2 checksum) := overwrite_overwrite rfl (by simpa using four)
  rw [← zeroed, m.unsummed_split]
  exact (m.overwrite_segment_checksum 0 checksum (m.bytes.drop 4)).symm

theorem checksum_bytes : toBytes 2 m.checksum = cut m.bytes 2 4 := by
  have four := m.four_le
  rw [checksum, toBytes_two, cut_two (by omega)]

end Icmpv6Message

/- Numbers that are sent or computed. -/

/-- The number that the store has for the field, or another one. -/
def sentOr (fields : FieldStore) (field : FieldRef) (scope : PacketScope) (sent other : Nat) : Nat :=
  if fields.containsFieldScope field scope then sent else other

section
variable {fields : FieldStore} {field : FieldRef} {scope : PacketScope} {n : Nat}

theorem narrowTo_word (fits : n < 2 ^ 16) (reason : String) :
    narrowTo 65536 reason (word 16 n) = .ok n := by
  have small : n < 65536 := fits
  rw [narrowTo, toU64_word (by decide) fits, ok_bind, if_pos small]

theorem sentOrCounted_eq
    (own : ∀ value, fields.firstByFieldScope field scope = some value → value = word 16 n)
    (fits : n < 2 ^ 16) {counted : Nat} (short : counted < 65536) (sentReason reason : String) :
    sentOrCounted (fields.firstByFieldScope field scope) sentReason counted reason =
      .ok (sentOr fields field scope n counted) := by
  cases first : fields.firstByFieldScope field scope with
  | some value =>
    have present : fields.containsFieldScope field scope = true := by
      rw [containsFieldScope, first]
      rfl
    rw [own value first, sentOrCounted, narrowTo_word fits, sentOr, if_pos present]
  | none =>
    have absent : ¬ fields.containsFieldScope field scope = true := by
      rw [containsFieldScope, first]
      exact Bool.false_ne_true
    rw [sentOrCounted, if_pos short, sentOr, if_neg absent]

theorem sentOrZero_eq
    (own : ∀ value, fields.firstByFieldScope field scope = some value → value = word 16 n)
    (fits : n < 2 ^ 16) (reason : String) :
    sentOrZero (fields.firstByFieldScope field scope) reason =
      .ok (sentOr fields field scope n 0, !fields.containsFieldScope field scope) := by
  cases first : fields.firstByFieldScope field scope with
  | some value =>
    have present : fields.containsFieldScope field scope = true := by
      rw [containsFieldScope, first]
      rfl
    rw [own value first, sentOrZero, narrowTo_word fits, ok_bind, sentOr, if_pos present, present]
    rfl
  | none =>
    have absent : fields.containsFieldScope field scope = false := by
      rw [containsFieldScope, first]
      rfl
    rw [sentOrZero, sentOr, absent]
    rfl

end

/- Rebuilt packets. -/

theorem withChecksum_udp (source destination : List UInt8) (u : UdpDatagram)
    (length checksum : Nat) (payload : List UInt8) (compute : Bool) :
    withChecksum source destination 17 (u.segment length checksum payload) compute =
      .ok (u.segment length (if compute then
        transportChecksum source destination 17 (u.segment length checksum payload)
        else checksum) payload) := by
  have size := u.length_segment length checksum payload
  cases compute with
  | false => rfl
  | true =>
    have found : checksumRange 17 (u.segment length checksum payload) = .ok 6 := by
      rw [checksumRange, if_pos ⟨rfl, by omega⟩]
    rw [withChecksum, if_pos rfl, found, ok_bind,
      copyInto_eq (by rw [length_toBytes, size]; omega), u.overwrite_segment_checksum]
    rfl

theorem withChecksum_icmpv6 (source destination : List UInt8) (m : Icmpv6Message)
    (checksum : Nat) (content : List UInt8) (compute : Bool) :
    withChecksum source destination 58 (m.segment checksum content) compute =
      .ok (m.segment (if compute then
        transportChecksum source destination 58 (m.segment checksum content)
        else checksum) content) := by
  have size := m.length_segment checksum content
  have other : ¬ (58 : UInt8) = 17 := by decide
  cases compute with
  | false => rfl
  | true =>
    have found : checksumRange 58 (m.segment checksum content) = .ok 2 := by
      rw [checksumRange, if_neg (fun both => other both.1), if_pos ⟨rfl, by omega⟩]
    rw [withChecksum, if_pos rfl, found, ok_bind,
      copyInto_eq (by rw [length_toBytes, size]; omega), m.overwrite_segment_checksum]
    rfl

section
variable {p e : Ipv6Packet} {direction : Direction} {fields : FieldStore} {scope : PacketScope}

theorem Faithful.counted (faithful : Faithful p direction fields)
    (located : packetForScope p.bytes scope = .ok e.bytes) {length : Nat} (short : length < 65536) :
    sentOrCounted (fields.firstByFieldScope (.ipv6 (.known .ipv6PayloadLength)) scope)
        "sent IPv6 payload length does not fit u16" length
        "IPv6 payload is too large to encode length" =
      .ok (sentOr fields (.ipv6 (.known .ipv6PayloadLength)) scope e.payload.length length) := by
  apply sentOrCounted_eq
  · intro value first
    exact (faithful.found rfl first).payloadLength located
  · exact e.payload_lt
  · exact short

theorem Faithful.reconstructUdp (faithful : Faithful p direction fields)
    (located : packetForScope p.bytes scope = .ok e.bytes) {u : UdpDatagram}
    (parsed : UdpDatagram.parse e.payload = .ok u) (covered : fields.covers (udpQueries scope))
    {coap payload : List UInt8} (carried : carriedCoap fields scope = .ok coap)
    (content : udpPayload fields scope coap = .ok payload) (short : 8 + payload.length < 65536) :
    reconstructUdp (scope.orient direction) fields scope =
      .ok (u.segment
          (sentOr fields (.udp (.known .udpLength)) scope u.bytes.length (8 + payload.length))
          (sentOr fields (.udp (.known .udpChecksum)) scope u.checksum 0) payload,
        !fields.containsFieldScope (.udp (.known .udpChecksum)) scope) := by
  obtain ⟨devStored, appStored⟩ := faithful.ports located parsed covered
  have fits := u.ports_lt (scope.orient direction)
  have devPort := devStored.firstU16At (by decide) fits.1
  have appPort := appStored.firstU16At (by decide) fits.2
  have length := sentOrCounted_eq (n := u.bytes.length)
    (fun value first => (faithful.found rfl first).udpLength located parsed) (udp_short parsed)
    short "sent UDP length does not fit u16" "UDP payload is too large to encode length"
  have checksum := sentOrZero_eq (n := u.checksum)
    (fun value first => (faithful.found rfl first).udpChecksum located parsed)
    (value_two_lt (byteAt u.bytes 6) (byteAt u.bytes 7)) "sent UDP checksum does not fit u16"
  simp only [SchcCore.reconstructUdp, carried, ok_bind, devPort, appPort, content, length, checksum]
  cases scope.orient direction <;> rfl

/-- From the ports and a payload comes the datagram with that payload, in front of which stands
    the header. -/
theorem Faithful.reconstructPacketAt_udp (faithful : Faithful p direction fields)
    (located : packetForScope p.bytes scope = .ok e.bytes) {u : UdpDatagram}
    (parsed : UdpDatagram.parse e.payload = .ok u) (udp : e.nextHeader = 17)
    (header : fields.covers (ipv6Queries scope)) (ports : fields.covers (udpQueries scope))
    {coap payload : List UInt8} (carried : carriedCoap fields scope = .ok coap)
    (content : udpPayload fields scope coap = .ok payload) (short : 8 + payload.length < 65536)
    (depth : Nat) :
    reconstructPacketAt (depth + 1) (scope.orient direction) fields scope =
      .ok (e.withUpper
        (sentOr fields (.ipv6 (.known .ipv6PayloadLength)) scope e.payload.length
          (8 + payload.length))
        (u.segment
          (sentOr fields (.udp (.known .udpLength)) scope u.bytes.length (8 + payload.length))
          (sentOr fields (.udp (.known .udpChecksum)) scope u.checksum
            (transportChecksum e.source e.destination 17 (u.segment
              (sentOr fields (.udp (.known .udpLength)) scope u.bytes.length (8 + payload.length))
              0 payload)))
          payload)) := by
  have stored := faithful.header located header
  have nextHeader := stored.nextHeader.firstU8At (by decide) e.nextHeader.toNat_lt
  have seventeen : e.nextHeader.toNat = 17 := by
    rw [udp]
    rfl
  have rebuilt := faithful.reconstructUdp located parsed ports carried content short
  have size := u.length_segment
    (sentOr fields (.udp (.known .udpLength)) scope u.bytes.length (8 + payload.length))
    (sentOr fields (.udp (.known .udpChecksum)) scope u.checksum 0) payload
  have counted := faithful.counted located (size.symm ▸ short)
  have done := reconstructIpv6WithUpper_header stored udp counted (withChecksum_udp e.source
    e.destination u _ _ payload (!fields.containsFieldScope (.udp (.known .udpChecksum)) scope))
  rw [size] at done
  rw [reconstructPacketAt, nextHeader, ok_bind, if_pos seventeen, rebuilt, ok_bind]
  refine done.trans ?_
  unfold sentOr
  cases fields.containsFieldScope (.udp (.known .udpChecksum)) scope <;> rfl

/-- Rebuilt with its own payload, the embedded or outer UDP packet is the packet but for the
    checksum. -/
theorem Faithful.reconstructPacketAt_whole_udp (faithful : Faithful p direction fields)
    (located : packetForScope p.bytes scope = .ok e.bytes) {u : UdpDatagram}
    (parsed : UdpDatagram.parse e.payload = .ok u) (udp : e.nextHeader = 17)
    (header : fields.covers (ipv6Queries scope)) (ports : fields.covers (udpQueries scope))
    {coap : List UInt8} (carried : carriedCoap fields scope = .ok coap)
    (content : udpPayload fields scope coap = .ok u.payload) (depth : Nat) :
    reconstructPacketAt (depth + 1) (scope.orient direction) fields scope =
      .ok (e.recomputed fields scope) := by
  have size : 8 + u.payload.length = u.bytes.length := by
    have := u.length_payload
    omega
  have same := UdpDatagram.parse_eq_ok.mp parsed
  have short := udp_short parsed
  have start : checksumStart e.nextHeader = 6 := by
    rw [checksumStart, if_pos udp]
  have room : 6 + 2 ≤ e.payload.length := by
    rw [← same]
    exact u.header
  rw [faithful.reconstructPacketAt_udp located parsed udp header ports carried content
    (by rw [size]; exact short), size, ← same]
  have length : ∀ n, sentOr fields n scope u.bytes.length u.bytes.length = u.bytes.length :=
    fun n => ite_self _
  rw [length, length, u.segment_payload, u.segment_payload, same, e.overwrite_payload]
  unfold sentOr Ipv6Packet.recomputed Ipv6Packet.resummed Ipv6Packet.unsummed
  rw [start, udp, checksumField, if_pos rfl]
  split
  · rw [u.checksum_bytes, same, ← e.drop_bytes, cut_drop]
    exact congrArg Except.ok (overwrite_self e.bytes (by decide) (by have := e.length_payload; omega))
  · rfl

/-- What follows the header of an ICMPv6 message. -/
def icmpv6Body (inner : Result (List UInt8)) (fields : FieldStore) (messageType : UInt8) :
    Result (List UInt8) :=
  if isIcmpv6ErrorType messageType then icmpv6ErrorBody inner fields .outer
  else sharedPayload fields .outer (.icmpv6 (.known .icmpv6Payload))

/-- What follows the first four bytes of an ICMPv6 message. -/
def icmpv6Content (inner : Result (List UInt8)) (fields : FieldStore) (messageType : UInt8) :
    Result (List UInt8) :=
  if isIcmpv6ErrorType messageType then do
    let typeWord ← icmpv6TypeWord fields .outer messageType
    if typeWord.bitLen ≠ 32 ∨ typeWord.bytes.length ≠ 4 then
      invalidResidue "ICMPv6 type-specific field must be exactly 32 bits"
    else do
      let body ← icmpv6ErrorBody inner fields .outer
      .ok (typeWord.bytes ++ body)
  else do
    let payload ← sharedPayload fields .outer (.icmpv6 (.known .icmpv6Payload))
    let words ← echoWords fields .outer messageType
    .ok (words ++ payload)

/-- Behind a stored type and code, whatever follows them. -/
theorem Faithful.reconstructIcmpv6_content (faithful : Faithful p direction fields)
    {m : Icmpv6Message} (parsed : Icmpv6Message.parse p.payload = .ok m)
    (typed : Stores fields .outer (.icmpv6 (.known .icmpv6Type)) 8 m.messageType.toNat)
    (coded : Stores fields .outer (.icmpv6 (.known .icmpv6Code)) 8 (byteAt m.bytes 1).toNat)
    (inner : Result (List UInt8)) :
    reconstructIcmpv6 inner fields .outer =
      icmpv6Content inner fields m.messageType >>= fun content =>
        .ok (m.segment (sentOr fields (.icmpv6 (.known .icmpv6Checksum)) .outer m.checksum 0) content,
          !fields.containsFieldScope (.icmpv6 (.known .icmpv6Checksum)) .outer) := by
  have messageType := typed.firstU8At (by decide) m.messageType.toNat_lt
  have code := coded.firstU8At (by decide) (byteAt m.bytes 1).toNat_lt
  have checksum := sentOrZero_eq (n := m.checksum)
    (fun value first => (faithful.found rfl first).icmpv6Checksum parsed)
    (value_two_lt (byteAt m.bytes 2) (byteAt m.bytes 3)) "sent ICMPv6 checksum does not fit u16"
  simp only [SchcCore.reconstructIcmpv6, messageType, code, checksum, ok_bind, UInt8.ofNat_toNat]
  rw [icmpv6Content]
  by_cases error : isIcmpv6ErrorType m.messageType
  · rw [if_pos error, if_pos error, bind_assoc]
    congr 1
    funext word
    by_cases bad : word.bitLen ≠ 32 ∨ word.bytes.length ≠ 4
    · rw [if_pos bad, if_pos bad]
      rfl
    · rw [if_neg bad, if_neg bad, bind_assoc]
      rfl
  · rw [if_neg error, if_neg error, bind_assoc]
    congr 1
    funext payload
    rw [bind_assoc]
    rfl

/-- Where all the words of the header are stored, the body follows them. -/
theorem Faithful.content_of_body (faithful : Faithful p direction fields) {m : Icmpv6Message}
    (icmpv6 : p.nextHeader = 58) (parsed : Icmpv6Message.parse p.payload = .ok m)
    (covered : fields.covers (icmpv6Queries m.messageType)) {inner : Result (List UInt8)}
    {body : List UInt8} (content : icmpv6Body inner fields m.messageType = .ok body) :
    icmpv6Content inner fields m.messageType = .ok (cut m.bytes 4 m.payloadOffset ++ body) := by
  rw [icmpv6Body] at content
  rw [icmpv6Content]
  by_cases error : isIcmpv6ErrorType m.messageType
  · have offset : m.payloadOffset = 8 := payloadOffset_eight (.inr error)
    have long : 8 ≤ m.bytes.length := offset.symm.trans_le m.header
    have size : (cut m.bytes 4 8).length = 4 := length_cut long
    have whole : ¬ ((FieldValue.ofBits (ofBytes (cut m.bytes 4 8))).bitLen ≠ 32 ∨
        (FieldValue.ofBits (ofBytes (cut m.bytes 4 8))).bytes.length ≠ 4) := by
      rw [FieldValue.bitLen_ofBits, length_ofBytes, FieldValue.bytes_ofBits_ofBytes, size]
      decide
    rw [if_pos error] at content
    rw [if_pos error, faithful.typeWord icmpv6 parsed error covered, ok_bind, if_neg whole, content,
      ok_bind, offset, FieldValue.bytes_ofBits_ofBytes]
  · rw [if_neg error] at content
    rw [if_neg error, content, ok_bind,
      faithful.echoWords icmpv6 parsed (by simpa using error) covered, ok_bind]

/-- From type, code and what follows them comes the message, in front of which stands the
    header. -/
theorem Faithful.reconstructPacketAt_content (faithful : Faithful p direction fields)
    {m : Icmpv6Message} (icmpv6 : p.nextHeader = 58)
    (parsed : Icmpv6Message.parse p.payload = .ok m) (header : fields.covers (ipv6Queries .outer))
    (typed : Stores fields .outer (.icmpv6 (.known .icmpv6Type)) 8 m.messageType.toNat)
    (coded : Stores fields .outer (.icmpv6 (.known .icmpv6Code)) 8 (byteAt m.bytes 1).toNat)
    {depth : Nat} {content : List UInt8}
    (made : icmpv6Content (reconstructPacketAt depth (reverseDirection direction) fields .embedded)
      fields m.messageType = .ok content) (short : 4 + content.length < 65536) :
    reconstructPacketAt (depth + 1) direction fields .outer =
      .ok (p.withUpper
        (sentOr fields (.ipv6 (.known .ipv6PayloadLength)) .outer p.payload.length
          (4 + content.length))
        (m.segment
          (sentOr fields (.icmpv6 (.known .icmpv6Checksum)) .outer m.checksum
            (transportChecksum p.source p.destination 58 (m.segment 0 content)))
          content)) := by
  have located := packetForScope_outer p
  have stored := faithful.header located header
  have nextHeader := stored.nextHeader.firstU8At (by decide) p.nextHeader.toNat_lt
  have other : ¬ p.nextHeader.toNat = 17 := by
    rw [icmpv6]
    decide
  have fiftyEight : p.nextHeader.toNat = 58 := by
    rw [icmpv6]
    rfl
  have size := m.length_segment
    (sentOr fields (.icmpv6 (.known .icmpv6Checksum)) .outer m.checksum 0) content
  have counted := faithful.counted located (size.symm ▸ short)
  have done := reconstructIpv6WithUpper_header stored icmpv6 counted (withChecksum_icmpv6 p.source
    p.destination m _ _ (!fields.containsFieldScope (.icmpv6 (.known .icmpv6Checksum)) .outer))
  rw [size] at done
  rw [reconstructPacketAt, nextHeader, ok_bind, if_neg other, if_pos fiftyEight,
    faithful.reconstructIcmpv6_content parsed typed coded, made, ok_bind, ok_bind]
  refine done.trans ?_
  unfold sentOr
  cases fields.containsFieldScope (.icmpv6 (.known .icmpv6Checksum)) .outer <;> rfl

/-- Rebuilt with its own content, the ICMPv6 packet is the packet but for the checksum. -/
theorem Faithful.reconstructPacketAt_whole_content (faithful : Faithful p direction fields)
    {m : Icmpv6Message} (icmpv6 : p.nextHeader = 58)
    (parsed : Icmpv6Message.parse p.payload = .ok m) (header : fields.covers (ipv6Queries .outer))
    (typed : Stores fields .outer (.icmpv6 (.known .icmpv6Type)) 8 m.messageType.toNat)
    (coded : Stores fields .outer (.icmpv6 (.known .icmpv6Code)) 8 (byteAt m.bytes 1).toNat)
    {depth : Nat}
    (made : icmpv6Content (reconstructPacketAt depth (reverseDirection direction) fields .embedded)
      fields m.messageType = .ok (m.bytes.drop 4)) :
    reconstructPacketAt (depth + 1) direction fields .outer = .ok (p.recomputed fields .outer) := by
  have same := Icmpv6Message.parse_eq_ok.mp parsed
  have four := m.four_le
  have size : 4 + (m.bytes.drop 4).length = p.payload.length := by
    rw [List.length_drop, ← same]
    omega
  have other : ¬ p.nextHeader = 17 := by
    rw [icmpv6]
    decide
  have start : checksumStart p.nextHeader = 2 := by
    rw [checksumStart, if_neg other]
  have room : 2 + 2 ≤ p.payload.length := by
    rw [← same]
    exact four
  rw [faithful.reconstructPacketAt_content icmpv6 parsed header typed coded made
    (by rw [size]; exact p.payload_lt), size]
  have length : sentOr fields (.ipv6 (.known .ipv6PayloadLength)) .outer p.payload.length
      p.payload.length = p.payload.length := ite_self _
  have field : checksumField p.nextHeader = .icmpv6 (.known .icmpv6Checksum) := by
    rw [checksumField, if_neg other]
  rw [length, m.segment_content, m.segment_content, same, p.overwrite_payload]
  unfold sentOr Ipv6Packet.recomputed Ipv6Packet.resummed Ipv6Packet.unsummed
  rw [field, start, icmpv6]
  split
  · rw [m.checksum_bytes, same, ← p.drop_bytes, cut_drop]
    exact congrArg Except.ok (overwrite_self p.bytes (by decide) (by have := p.length_payload; omega))
  · rfl

theorem Faithful.reconstructPacketAt_icmpv6 (faithful : Faithful p direction fields)
    {m : Icmpv6Message} (icmpv6 : p.nextHeader = 58)
    (parsed : Icmpv6Message.parse p.payload = .ok m) (header : fields.covers (ipv6Queries .outer))
    (covered : fields.covers (icmpv6Queries m.messageType)) {depth : Nat} {body : List UInt8}
    (content : icmpv6Body (reconstructPacketAt depth (reverseDirection direction) fields .embedded)
      fields m.messageType = .ok body) (short : m.payloadOffset + body.length < 65536) :
    reconstructPacketAt (depth + 1) direction fields .outer =
      .ok (p.withUpper
        (sentOr fields (.ipv6 (.known .ipv6PayloadLength)) .outer p.payload.length
          (m.payloadOffset + body.length))
        (m.segment
          (sentOr fields (.icmpv6 (.known .icmpv6Checksum)) .outer m.checksum
            (transportChecksum p.source p.destination 58
              (m.segment 0 (cut m.bytes 4 m.payloadOffset ++ body))))
          (cut m.bytes 4 m.payloadOffset ++ body))) := by
  obtain ⟨typed, coded⟩ := faithful.icmpv6Header icmpv6 parsed covered
  have four : 4 ≤ m.payloadOffset := Icmpv6Message.four_le_payloadOffset m.messageType
  have size : 4 + (cut m.bytes 4 m.payloadOffset ++ body).length = m.payloadOffset + body.length := by
    have inside : m.payloadOffset ≤ m.bytes.length := m.header
    rw [List.length_append, length_cut inside]
    omega
  have rebuilt := faithful.reconstructPacketAt_content icmpv6 parsed header typed coded
    (faithful.content_of_body icmpv6 parsed covered content) (size.symm ▸ short)
  rwa [size] at rebuilt

/-- Rebuilt with its own payload, the ICMPv6 packet is the packet but for the checksum. -/
theorem Faithful.reconstructPacketAt_whole_icmpv6 (faithful : Faithful p direction fields)
    {m : Icmpv6Message} (icmpv6 : p.nextHeader = 58)
    (parsed : Icmpv6Message.parse p.payload = .ok m) (header : fields.covers (ipv6Queries .outer))
    (covered : fields.covers (icmpv6Queries m.messageType)) {depth : Nat}
    (content : icmpv6Body (reconstructPacketAt depth (reverseDirection direction) fields .embedded)
      fields m.messageType = .ok m.payload) :
    reconstructPacketAt (depth + 1) direction fields .outer = .ok (p.recomputed fields .outer) := by
  obtain ⟨typed, coded⟩ := faithful.icmpv6Header icmpv6 parsed covered
  have four : 4 ≤ m.payloadOffset := Icmpv6Message.four_le_payloadOffset m.messageType
  have whole : cut m.bytes 4 m.payloadOffset ++ m.payload = m.bytes.drop 4 :=
    cut_append_drop m.bytes four m.header
  have made := faithful.content_of_body icmpv6 parsed covered content
  rw [whole] at made
  exact faithful.reconstructPacketAt_whole_content icmpv6 parsed header typed coded made

end

/- The last step: lengths and the checksum are patched. -/

section
variable {p : Ipv6Packet} {fields : FieldStore}

theorem Ipv6Packet.byteAt_withUpper (p : Ipv6Packet) (length : Nat) (upper : List UInt8) :
    byteAt (p.withUpper length upper) 6 = p.nextHeader := by
  have front : (cut p.bytes 0 4 ++ toBytes 2 length).length = 6 := by
    rw [List.length_append, length_cut (p.addresses (by decide)), length_toBytes]
  have split : p.withUpper length upper = (cut p.bytes 0 4 ++ toBytes 2 length) ++
      ([p.nextHeader, byteAt p.bytes 7] ++ p.source ++ p.destination ++ upper) := by
    simp only [Ipv6Packet.withUpper, List.append_assoc]
  have sixth := byteAt_append_right (cut p.bytes 0 4 ++ toBytes 2 length)
    ([p.nextHeader, byteAt p.bytes 7] ++ p.source ++ p.destination ++ upper) 0
  rw [front] at sixth
  rw [split, sixth]
  rfl

/-- The length of the IPv6 header comes out right, whether it was sent or is patched. -/
theorem patchLength_payload (other : Nat) {upper : List UInt8}
    (size : upper.length = p.payload.length) (reason : String) :
    patchLength fields (.ipv6 (.known .ipv6PayloadLength)) 4 reason
        (p.withUpper (sentOr fields (.ipv6 (.known .ipv6PayloadLength)) .outer p.payload.length other)
          upper) = .ok (p.withUpper p.payload.length upper) := by
  have short := p.payload_lt
  have length : ∀ n, (p.withUpper n upper).length - 40 = p.payload.length := by
    intro n
    rw [p.length_withUpper, size]
    omega
  unfold patchLength sentOr
  by_cases sent : fields.containsFieldScope (.ipv6 (.known .ipv6PayloadLength)) .outer
  · rw [if_pos sent, if_pos sent]
  · rw [if_neg sent, if_neg sent, length, if_pos short,
      copyInto_eq (by rw [length_toBytes, p.length_withUpper]; omega), p.overwrite_length]

/-- So does the length of the UDP header. -/
theorem patchLength_udp {u : UdpDatagram} (parsed : UdpDatagram.parse p.payload = .ok u)
    (other checksum : Nat) (reason : String) :
    patchLength fields (.udp (.known .udpLength)) 44 reason
        (p.withUpper p.payload.length (u.segment
          (sentOr fields (.udp (.known .udpLength)) .outer u.bytes.length other) checksum u.payload)) =
      .ok (overwrite p.bytes 46 (toBytes 2 checksum)) := by
  have same := UdpDatagram.parse_eq_ok.mp parsed
  have short := udp_short parsed
  have size : 8 + u.payload.length = u.bytes.length := by
    have := u.length_payload
    omega
  have whole : p.withUpper p.payload.length (u.segment u.bytes.length checksum u.payload) =
      overwrite p.bytes 46 (toBytes 2 checksum) := by
    rw [u.segment_payload, same, p.overwrite_payload]
  have length : ∀ n, (p.withUpper p.payload.length (u.segment n checksum u.payload)).length - 40 =
      u.bytes.length := by
    intro n
    rw [p.length_withUpper, u.length_segment, size]
    omega
  unfold patchLength sentOr
  by_cases sent : fields.containsFieldScope (.udp (.known .udpLength)) .outer
  · rw [if_pos sent, if_pos sent, whole]
  · rw [if_neg sent, if_neg sent, length, if_pos short,
      copyInto_eq (by rw [length_toBytes, p.length_withUpper, u.length_segment]; omega)]
    change Except.ok (overwrite _ (40 + 4) _) = _
    rw [p.overwrite_upper, u.overwrite_segment_length, whole]

/-- The checksum is the packet's own where it was sent, and computed otherwise. -/
theorem patchChecksum_recomputes (room : p.HasChecksum) {sent : List UInt8}
    (own : sent = cut p.payload (checksumStart p.nextHeader) (checksumStart p.nextHeader + 2))
    (fields : FieldStore) {other : List UInt8} (two : other.length = 2) :
    patchChecksum fields (checksumField p.nextHeader) (40 + checksumStart p.nextHeader) p.nextHeader
        (overwrite p.bytes (40 + checksumStart p.nextHeader)
          (if fields.containsFieldScope (checksumField p.nextHeader) .outer then sent else other)) =
      .ok (p.recomputed fields .outer) := by
  have inside := room.inside
  have zeros : ([0, 0] : List UInt8).length = 2 := rfl
  unfold Ipv6Packet.recomputed
  by_cases present : fields.containsFieldScope (checksumField p.nextHeader) .outer
  · rw [if_pos present, if_pos present, patchChecksum, if_pos present, own, ← p.drop_bytes, cut_drop]
    exact congrArg Except.ok (overwrite_self p.bytes (by omega) inside)
  · have written : (overwrite p.bytes (40 + checksumStart p.nextHeader) other).length =
        p.bytes.length := length_overwrite (by omega)
    have zeroed : overwrite (overwrite p.bytes (40 + checksumStart p.nextHeader) other)
        (40 + checksumStart p.nextHeader) [0, 0] =
          overwrite p.bytes (40 + checksumStart p.nextHeader) [0, 0] :=
      overwrite_overwrite (two.trans zeros.symm) (by omega)
    have segment : (overwrite p.bytes (40 + checksumStart p.nextHeader) [0, 0]).drop 40 =
        p.unsummed := by
      rw [drop_overwrite_before (by omega) (by omega), Nat.add_sub_cancel_left]
      rfl
    rw [if_neg present, if_neg present, patchChecksum_eq _ _ _ (by omega) (by omega),
      if_neg present, zeroed, segment, cut_overwrite_before (by omega) (by omega),
      cut_overwrite_before (by omega) (by omega),
      overwrite_overwrite (by rw [length_toBytes, zeros]) (by omega)]
    rfl

/-- Computing the checksum disturbs no length. -/
theorem validate_recomputed (room : p.HasChecksum)
    (udp : p.nextHeader = 17 → ∃ u, UdpDatagram.parse p.payload = .ok u) :
    validatePacketLengths (p.recomputed fields .outer) = .ok () := by
  have size := Ipv6Packet.length_recomputed room fields .outer
  have header := p.header
  have kept : ∀ i < 40, byteAt (p.recomputed fields .outer) i = byteAt p.bytes i := by
    intro i early
    exact Ipv6Packet.byteAt_recomputed room fields .outer (.inl (by omega))
  obtain ⟨q, parsed⟩ := (Ipv6Packet.parse_isOk_iff (p.recomputed fields .outer)).mpr
    ⟨by omega, by rw [kept 0 (by decide), p.version],
      by rw [kept 4 (by decide), kept 5 (by decide), p.declared, size]⟩
  have bytes := Ipv6Packet.parse_eq_ok.mp parsed
  rw [← bytes]
  apply validatePacketLengths_parsed
  intro other
  rw [Ipv6Packet.nextHeader_eq, bytes, kept 6 (by decide), ← Ipv6Packet.nextHeader_eq] at other
  obtain ⟨u, datagram⟩ := udp other
  have same := UdpDatagram.parse_eq_ok.mp datagram
  have start : checksumStart p.nextHeader = 6 := by
    rw [checksumStart, if_pos other]
  have long : q.payload.length = u.bytes.length := by
    have first := q.length_payload
    have second := p.length_payload
    rw [bytes] at first
    rw [same]
    omega
  have word : ∀ i < 6, byteAt q.payload i = byteAt u.bytes i := by
    intro i early
    have moved := byteAt_drop q.bytes 40 i
    rw [bytes, Ipv6Packet.byteAt_recomputed room fields .outer (.inl (by rw [start]; omega)),
      ← byteAt_drop] at moved
    rw [same]
    change byteAt (q.bytes.drop 40) i = _
    rw [bytes]
    exact moved
  apply (UdpDatagram.parse_isOk_iff q.payload).mpr
  rw [long, word 4 (by decide), word 5 (by decide)]
  exact ⟨u.header, u.declared⟩

theorem hasChecksum_udp {u : UdpDatagram} (udp : p.nextHeader = 17)
    (parsed : UdpDatagram.parse p.payload = .ok u) : p.HasChecksum := by
  have header := u.header
  rw [Ipv6Packet.HasChecksum, checksumStart, if_pos udp, ← UdpDatagram.parse_eq_ok.mp parsed]
  exact header

theorem hasChecksum_icmpv6 {m : Icmpv6Message} (icmpv6 : p.nextHeader = 58)
    (parsed : Icmpv6Message.parse p.payload = .ok m) : p.HasChecksum := by
  have four := m.four_le
  rw [Ipv6Packet.HasChecksum, checksumStart, if_neg (by rw [icmpv6]; decide),
    ← Icmpv6Message.parse_eq_ok.mp parsed]
  exact four

/-- A header joined with the datagram's own payload becomes the packet but for its checksum. -/
theorem reconstructPacketWithSuffix_udp {direction : Direction} {suffix : List UInt8}
    {u : UdpDatagram} {length counted checksum : Nat} (udp : p.nextHeader = 17)
    (parsed : UdpDatagram.parse p.payload = .ok u)
    (coap : fields.containsFieldScope (.coap (.known .coapVersion)) .outer →
      ∃ m, CoapMessage.parse u.payload = .ok m)
    (joined : joinSuffix direction fields suffix = .ok (p.withUpper
      (sentOr fields (.ipv6 (.known .ipv6PayloadLength)) .outer p.payload.length length)
      (u.segment (sentOr fields (.udp (.known .udpLength)) .outer u.bytes.length counted)
        (sentOr fields (.udp (.known .udpChecksum)) .outer u.checksum checksum) u.payload))) :
    reconstructPacketWithSuffix direction fields suffix = .ok (p.recomputed fields .outer) := by
  have same := UdpDatagram.parse_eq_ok.mp parsed
  have room := hasChecksum_udp udp parsed
  have header := u.header
  have bound := p.length_payload
  have size : ∀ k c, (u.segment k c u.payload).length = p.payload.length := by
    intro k c
    have payload := u.length_payload
    rw [u.length_segment, ← same]
    omega
  have start : checksumStart p.nextHeader = 6 := by
    rw [checksumStart, if_pos udp]
  have field : checksumField p.nextHeader = .udp (.known .udpChecksum) := by
    rw [checksumField, if_pos udp]
  have summed : patchChecksum fields (.udp (.known .udpChecksum)) 46 17
      (overwrite p.bytes 46 (toBytes 2
        (sentOr fields (.udp (.known .udpChecksum)) .outer u.checksum checksum))) =
      .ok (p.recomputed fields .outer) := by
    have own : toBytes 2 u.checksum =
        cut p.payload (checksumStart p.nextHeader) (checksumStart p.nextHeader + 2) := by
      rw [u.checksum_bytes, same, start]
    have done := patchChecksum_recomputes room own fields (length_toBytes 2 checksum)
    rw [start, field, udp] at done
    rw [sentOr, apply_ite (toBytes 2)]
    exact done
  have kept : (p.recomputed fields .outer).drop 48 = u.payload := by
    have tail : ∀ bytes : List UInt8, bytes.drop 48 = (bytes.drop 40).drop 8 := by
      intro bytes
      rw [List.drop_drop]
    have upper : p.bytes.drop 48 = u.payload := by
      rw [tail, p.drop_bytes, ← same]
      rfl
    rw [← upper, Ipv6Packet.recomputed]
    split
    · rfl
    · rw [Ipv6Packet.resummed, start]
      exact drop_overwrite_after (by rw [← same] at bound; omega) (by rw [length_toBytes])
  have patched : patchUdp fields (p.withUpper p.payload.length (u.segment
      (sentOr fields (.udp (.known .udpLength)) .outer u.bytes.length counted)
      (sentOr fields (.udp (.known .udpChecksum)) .outer u.checksum checksum) u.payload)) =
        .ok (p.recomputed fields .outer) := by
    have long : ¬ (p.withUpper p.payload.length (u.segment
        (sentOr fields (.udp (.known .udpLength)) .outer u.bytes.length counted)
        (sentOr fields (.udp (.known .udpChecksum)) .outer u.checksum checksum)
        u.payload)).length < 48 := by
      rw [p.length_withUpper, size, ← same]
      omega
    rw [patchUdp, if_neg long, patchLength_udp parsed, ok_bind, summed, ok_bind]
    by_cases present : fields.containsFieldScope (.coap (.known .coapVersion)) .outer
    · obtain ⟨m, message⟩ := coap present
      have whole : 48 ≤ (p.recomputed fields .outer).length := by
        rw [Ipv6Packet.length_recomputed room]
        rw [← same] at bound
        omega
      rw [if_pos present, slice_eq whole (Nat.le_refl _), ok_bind, cut_to_end, kept, message, ok_bind]
    · rw [if_neg present]
  have room40 : ∀ n upper, ¬ (p.withUpper n upper).length < 40 := by
    intro n upper
    rw [p.length_withUpper]
    omega
  have sixth : ∀ n upper, index (p.withUpper n upper) 6 = .ok (p.nextHeader) := by
    intro n upper
    rw [index_eq (by rw [p.length_withUpper]; omega), p.byteAt_withUpper]
  rw [reconstructPacketWithSuffix, joined, ok_bind, if_neg (room40 _ _), sixth, ok_bind,
    patchLength_payload _ (size _ _), ok_bind, patchUpper, if_pos udp, patched, ok_bind,
    validate_recomputed room (fun _ => ⟨u, parsed⟩)]
  rfl

/-- A header joined with the rest of its ICMPv6 message becomes the packet but for its
    checksum. -/
theorem reconstructPacketWithSuffix_icmpv6 {direction : Direction} {suffix : List UInt8}
    {m : Icmpv6Message} {length checksum : Nat} (icmpv6 : p.nextHeader = 58)
    (parsed : Icmpv6Message.parse p.payload = .ok m)
    (joined : joinSuffix direction fields suffix = .ok (p.withUpper
      (sentOr fields (.ipv6 (.known .ipv6PayloadLength)) .outer p.payload.length length)
      (m.segment (sentOr fields (.icmpv6 (.known .icmpv6Checksum)) .outer m.checksum checksum)
        (m.bytes.drop 4)))) :
    reconstructPacketWithSuffix direction fields suffix = .ok (p.recomputed fields .outer) := by
  have same := Icmpv6Message.parse_eq_ok.mp parsed
  have room := hasChecksum_icmpv6 icmpv6 parsed
  have four := m.four_le
  have bound := p.length_payload
  have other : ¬ p.nextHeader = 17 := by
    rw [icmpv6]
    decide
  have size : ∀ c, (m.segment c (m.bytes.drop 4)).length = p.payload.length := by
    intro c
    rw [m.length_segment, List.length_drop, ← same]
    omega
  have start : checksumStart p.nextHeader = 2 := by
    rw [checksumStart, if_neg other]
  have field : checksumField p.nextHeader = .icmpv6 (.known .icmpv6Checksum) := by
    rw [checksumField, if_neg other]
  have whole : ∀ c, p.withUpper p.payload.length (m.segment c (m.bytes.drop 4)) =
      overwrite p.bytes 42 (toBytes 2 c) := by
    intro c
    rw [m.segment_content, same, p.overwrite_payload]
  have summed : patchChecksum fields (.icmpv6 (.known .icmpv6Checksum)) 42 58
      (overwrite p.bytes 42 (toBytes 2
        (sentOr fields (.icmpv6 (.known .icmpv6Checksum)) .outer m.checksum checksum))) =
      .ok (p.recomputed fields .outer) := by
    have own : toBytes 2 m.checksum =
        cut p.payload (checksumStart p.nextHeader) (checksumStart p.nextHeader + 2) := by
      rw [m.checksum_bytes, same, start]
    have done := patchChecksum_recomputes room own fields (length_toBytes 2 checksum)
    rw [start, field, icmpv6] at done
    rw [sentOr, apply_ite (toBytes 2)]
    exact done
  have long : 44 ≤ (p.recomputed fields .outer).length := by
    rw [Ipv6Packet.length_recomputed room]
    rw [← same] at bound
    omega
  obtain ⟨message, reparsed⟩ := (Icmpv6Message.parse_isOk_iff
      ((p.recomputed fields .outer).drop 40)).mpr (by
    have offset := m.header
    have first : byteAt m.bytes 0 = byteAt ((p.recomputed fields .outer).drop 40) 0 := by
      rw [byteAt_drop, Ipv6Packet.byteAt_recomputed room fields .outer (.inl (by rw [start]; omega)),
        ← byteAt_drop, same]
      rfl
    rw [← first, List.length_drop, Ipv6Packet.length_recomputed room]
    rw [← same] at bound
    omega)
  have patched : patchIcmpv6 fields (overwrite p.bytes 42 (toBytes 2
      (sentOr fields (.icmpv6 (.known .icmpv6Checksum)) .outer m.checksum checksum))) =
        .ok (p.recomputed fields .outer) := by
    have enough : ¬ (overwrite p.bytes 42 (toBytes 2
        (sentOr fields (.icmpv6 (.known .icmpv6Checksum)) .outer m.checksum checksum))).length < 44 := by
      rw [← whole, p.length_withUpper, size, ← same]
      omega
    rw [patchIcmpv6, if_neg enough, summed, ok_bind, slice_eq (by omega) (Nat.le_refl _), ok_bind,
      cut_to_end, reparsed, ok_bind]
  have room40 : ∀ n upper, ¬ (p.withUpper n upper).length < 40 := by
    intro n upper
    rw [p.length_withUpper]
    omega
  have sixth : ∀ n upper, index (p.withUpper n upper) 6 = .ok (p.nextHeader) := by
    intro n upper
    rw [index_eq (by rw [p.length_withUpper]; omega), p.byteAt_withUpper]
  rw [reconstructPacketWithSuffix, joined, ok_bind, if_neg (room40 _ _), sixth, ok_bind,
    patchLength_payload _ (size _), ok_bind, patchUpper, if_neg other, if_pos icmpv6, whole, patched,
    ok_bind, validate_recomputed room (fun udp => absurd udp other)]
  rfl

end

end SchcCore
