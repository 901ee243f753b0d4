import SchcCore.Roundtrip.Covered

/- Where the carried suffix starts exactly where the rebuilt header ends: under the condition the
   receiver rebuilds the packet but for what it computes, and nowhere else. -/
namespace SchcCore
open Outcome Bytes BigEndian BitList FieldStore

section
variable {p : Ipv6Packet} {direction : Direction} {state : CompressionState} {sent : FieldStore}
  {suffix : List UInt8}

/- A covered header and the carried suffix are the packet. -/

theorem drop_udp {u : UdpDatagram} (parsed : UdpDatagram.parse p.payload = .ok u) :
    p.bytes.drop 48 = u.payload := by
  have tail : p.bytes.drop 48 = (p.bytes.drop 40).drop 8 := by rw [List.drop_drop]
  rw [tail, p.drop_bytes, ← UdpDatagram.parse_eq_ok.mp parsed]
  rfl

theorem drop_icmpv6 {m : Icmpv6Message} (parsed : Icmpv6Message.parse p.payload = .ok m) :
    p.bytes.drop (40 + m.payloadOffset) = m.payload := by
  have tail : p.bytes.drop (40 + m.payloadOffset) = (p.bytes.drop 40).drop m.payloadOffset := by
    rw [List.drop_drop]
  rw [tail, p.drop_bytes, m.payload_eq, ← Icmpv6Message.parse_eq_ok.mp parsed]

theorem Elides.containsField_left {fields : FieldStore} (elides : Elides fields sent)
    {field : FieldRef} (apart : isComputeSupported field = false) {scope : PacketScope}
    (present : sent.containsFieldScope field scope) : fields.containsField field := by
  rw [elides.containsFieldScope apart] at present
  exact containsField_of_scope present

theorem covers_port (covered : sent.covers (udpHeaders .outer)) :
    sent.containsFieldScope (.udp (.known .udpDevPort)) .outer := by
  rw [udpHeaders, covers_append] at covered
  exact covers_mem covered.2 List.mem_cons_self

theorem rebuilds_covered_udp (gathered : Gathered p direction state)
    (elides : Elides state.fields sent)
    (carried : carryThroughSuffix p.bytes state = .ok (some suffix)) (udp : p.nextHeader = 17)
    {u : UdpDatagram} (parsed : UdpDatagram.parse p.payload = .ok u) (plain : sent.hasCoap = false)
    (covered : sent.covers (udpHeaders .outer)) :
    rebuildCarried direction sent suffix = .ok (p.recomputed sent .outer) := by
  obtain ⟨silent, offset, reached, -, rfl⟩ := carryThroughSuffix_some carried
  have faithful : Faithful p direction sent := elides.faithful gathered.read
  have bare : state.fields.hasCoap = false := elides.hasCoap.symm.trans plain
  have split := coveredLength_udp udp (elides.containsField_left rfl (covers_port covered)) bare reached
  subst split
  have absent : ¬ sent.containsFieldScope (.coap (.known .coapVersion)) .outer = true := by
    intro present
    obtain ⟨stored, member, named, -, -⟩ := stored_of_first (Option.isSome_iff_exists.mp present).choose_spec
    have quiet := List.any_eq_false.mp plain stored member
    rw [named] at quiet
    exact quiet rfl
  have none : carriedCoap sent .outer = .ok [] := by
    rw [carriedCoap, if_neg (fun both => absent both.2)]
  exact faithful.rebuilds_udp (elides.hasExplicitPayload.trans silent) udp parsed covered none
    (fun present => absurd present absent) (drop_udp parsed)

theorem rebuilds_covered_coap (gathered : Gathered p direction state)
    (elides : Elides state.fields sent)
    (carried : carryThroughSuffix p.bytes state = .ok (some suffix)) (udp : p.nextHeader = 17)
    {u : UdpDatagram} {m : CoapMessage} (parsed : UdpDatagram.parse p.payload = .ok u)
    (message : CoapMessage.parse u.payload = .ok m)
    (covered : sent.covers (udpHeaders .outer ++ coapHeaderQueries m)) :
    rebuildCarried direction sent suffix = .ok (p.recomputed sent .outer) := by
  obtain ⟨silent, offset, reached, -, rfl⟩ := carryThroughSuffix_some carried
  have faithful : Faithful p direction sent := elides.faithful gathered.read
  have quiet := elides.hasExplicitPayload.trans silent
  obtain ⟨headers, coap⟩ := covers_append.mp covered
  have version : sent.containsFieldScope (.coap (.known .coapVersion)) .outer := by
    rw [coapHeaderQueries, covers_append] at coap
    exact covers_mem coap.1 List.mem_cons_self
  have structured : state.fields.hasCoap = true := by
    obtain ⟨stored, member, named⟩ := List.any_eq_true.mp (elides.containsField_left rfl version)
    refine List.any_eq_true.mpr ⟨stored, member, ?_⟩
    rw [of_decide_eq_true named]
  obtain ⟨u', m', boundary, leading, bytes, parsed', message', bounded, made, written, rfl⟩ :=
    coveredLength_coap udp (elides.containsField_left rfl (covers_port headers)) structured reached
  cases parsed.symm.trans parsed'
  cases message.symm.trans message'
  have header := CoapMessage.header_of_parse message
  have outer : outerCoap p.bytes = .ok m := by
    rw [outerCoap, Ipv6Packet.parse_bytes, ok_bind, parsed, ok_bind, message]
  have options := gathered.leading elides outer header.options bounded
  have rebuilt := faithful.reconstructCoap parsed message coap quiet options made written
  have whole : carriedCoap sent .outer = .ok bytes := by
    rw [carriedCoap, if_pos ⟨rfl, version⟩, rebuilt]
  have front : bytes <+: u.payload :=
    CoapMessage.toVec_take (CoapMessage.toVec_of_parse message).1 made written
  obtain ⟨rest, joined⟩ := front
  have split : bytes ++ p.bytes.drop (48 + bytes.length) = u.payload := by
    rw [← List.drop_drop, drop_udp parsed, ← joined, List.drop_left]
  exact faithful.rebuilds_udp quiet udp parsed headers whole (fun _ => ⟨m, message⟩) split

theorem rebuilds_covered_icmpv6 (gathered : Gathered p direction state)
    (elides : Elides state.fields sent)
    (carried : carryThroughSuffix p.bytes state = .ok (some suffix)) (icmpv6 : p.nextHeader = 58)
    {m : Icmpv6Message} (parsed : Icmpv6Message.parse p.payload = .ok m)
    (ordinary : isIcmpv6ErrorType m.messageType = false)
    (covered : sent.covers (ipv6Queries .outer ++ icmpv6Queries m.messageType)) :
    rebuildCarried direction sent suffix = .ok (p.recomputed sent .outer) := by
  obtain ⟨silent, offset, reached, -, rfl⟩ := carryThroughSuffix_some carried
  have faithful : Faithful p direction sent := elides.faithful gathered.read
  have quiet := elides.hasExplicitPayload.trans silent
  obtain ⟨header, message⟩ := covers_append.mp covered
  obtain ⟨typed, -⟩ := faithful.icmpv6Header icmpv6 parsed message
  have present : sent.containsFieldScope (.icmpv6 (.known .icmpv6Type)) .outer := by
    rw [containsFieldScope, typed]
    rfl
  have split := coveredLength_icmpv6 icmpv6 (elides.containsField_left rfl present) parsed reached
  subst split
  rw [drop_icmpv6 parsed]
  have content : ∀ inner, icmpv6Body inner sent m.messageType = .ok [] := by
    intro inner
    rw [icmpv6Body, if_neg (by simp [ordinary]),
      sharedPayload_silent quiet (by simp [payloadFields])]
  by_cases none : m.payload = []
  · have rebuilt := faithful.reconstructPacketAt_whole_icmpv6 icmpv6 parsed header message
      ((content (reconstructPacketAt 1 (reverseDirection direction) sent .embedded)).trans
        (by rw [none]))
    change reconstructPacketAt packetDepth direction sent .outer = _ at rebuilt
    rw [none, rebuildCarried_nil, reconstructPacket, rebuilt, ok_bind,
      validate_recomputed (hasChecksum_icmpv6 icmpv6 parsed)
        (fun udp => absurd (icmpv6.symm.trans udp) (by decide))]
    rfl
  · have four : 4 ≤ m.payloadOffset := Icmpv6Message.four_le_payloadOffset m.messageType
    have inside : m.payloadOffset ≤ m.bytes.length := m.header
    have whole : cut m.bytes 4 m.payloadOffset ++ m.payload = m.bytes.drop 4 := by
      rw [m.payload_eq]
      exact cut_append_drop m.bytes four inside
    have short : m.payloadOffset + ([] : List UInt8).length < 65536 := by
      have bound := p.payload_lt
      rw [← Icmpv6Message.parse_eq_ok.mp parsed] at bound
      rw [List.length_nil]
      omega
    have rebuilt := faithful.reconstructPacketAt_icmpv6 icmpv6 parsed header message
      (content (reconstructPacketAt 1 (reverseDirection direction) sent .embedded)) short
    change reconstructPacketAt packetDepth direction sent .outer = _ at rebuilt
    have stored := faithful.header (packetForScope_outer p) header
    rw [rebuildCarried_suffix direction sent none]
    apply reconstructPacketWithSuffix_icmpv6 icmpv6 parsed
    rw [joinSuffix, headerOnly_icmpv6 quiet icmpv6 stored.nextHeader typed, ok_bind, ordinary,
      if_neg Bool.false_ne_true, rebuilt, ok_bind, p.withUpper_append, m.segment_append,
      List.append_nil, whole]

/-- The payload of an ICMPv6 error, as the receiver stores a suffix that it injects. -/
def injected (sent : FieldStore) (payload : List UInt8) : FieldStore :=
  sent.insert ⟨.payload, 1, 0, .outer⟩ (.ofBits (ofBytes payload))

theorem firstByFieldScope_injected (payload : List UInt8) {field : FieldRef}
    (other : field ≠ .payload) (scope : PacketScope) :
    (injected sent payload).firstByFieldScope field scope = sent.firstByFieldScope field scope :=
  firstByFieldScope_insert (fun same => other same.symm) _ scope

theorem containsFieldScope_injected (payload : List UInt8) {field : FieldRef}
    (other : field ≠ .payload) (scope : PacketScope) :
    (injected sent payload).containsFieldScope field scope = sent.containsFieldScope field scope := by
  rw [containsFieldScope, containsFieldScope, firstByFieldScope_injected payload other]

theorem covers_injected (payload : List UInt8) {queries : List Query}
    (others : ∀ q ∈ queries, q.key.field ≠ .payload) :
    (injected sent payload).covers queries = sent.covers queries := by
  rw [FieldStore.covers, FieldStore.covers, Bool.eq_iff_iff, List.all_eq_true, List.all_eq_true]
  constructor
  · intro covered q member
    rw [← containsFieldScope_injected payload (others q member)]
    exact covered q member
  · intro covered q member
    rw [containsFieldScope_injected payload (others q member)]
    exact covered q member

/-- Where the store has no payload, the injected one is the first. -/
theorem payload_injected (quiet : sent.hasExplicitPayload = false) (payload : List UInt8) :
    (injected sent payload).firstByFieldScope .payload .outer = some (.ofBits (ofBytes payload)) := by
  have silent : ∀ stored ∈ sent, (if stored.1.field = .payload ∧ stored.1.scope = .outer then
      some stored.2 else none) = none := by
    intro stored member
    apply if_neg
    rintro ⟨named, -⟩
    have without := List.any_eq_false.mp quiet stored member
    rw [named] at without
    exact without rfl
  rw [injected, FieldStore.insert, firstByFieldScope, List.findSome?_append,
    List.findSome?_eq_none_iff.mpr silent]
  rfl

theorem Faithful.injected (faithful : Faithful p direction sent) (icmpv6 : p.nextHeader = 58)
    {m : Icmpv6Message} (parsed : Icmpv6Message.parse p.payload = .ok m) :
    Faithful p direction (injected sent m.payload) := by
  intro stored member plain
  rw [SchcCore.injected, FieldStore.insert, List.mem_append, List.mem_singleton] at member
  rcases member with old | rfl
  · exact faithful stored old plain
  · refine ⟨⟨.payload, .variableBytes, 1, 0⟩, none, false, .initial, rfl, ?_⟩
    have other : ¬ p.nextHeader = 17 := by
      rw [icmpv6]
      decide
    have whole := FieldValue.fromBytes_whole m.payload
    rw [Nat.mul_comm] at whole
    rw [extractField, packetForScope_outer, ok_bind]
    change extractGenericPayload p.bytes direction false = _
    rw [extractGenericPayload, packetForScope_outer, ok_bind, Ipv6Packet.parse_bytes, ok_bind,
      if_neg other, if_pos icmpv6, parsed, ok_bind, whole]

theorem payload_injected_embedded (quiet : sent.hasExplicitPayload = false) (payload : List UInt8) :
    (injected sent payload).firstByFieldScope .payload .embedded = none := by
  have first : sent.firstByFieldScope .payload .embedded = none :=
    first_of_silent quiet List.mem_cons_self
  rw [injected, FieldStore.insert, firstByFieldScope, List.findSome?_append]
  rw [firstByFieldScope] at first
  rw [first]
  rfl

theorem checksum_injected (payload : List UInt8) (e : Ipv6Packet) (scope : PacketScope) :
    e.recomputed (injected sent payload) scope = e.recomputed sent scope := by
  have other : checksumField e.nextHeader ≠ .payload := by
    unfold checksumField
    split <;> exact nofun
  rw [Ipv6Packet.recomputed, Ipv6Packet.recomputed, containsFieldScope_injected payload other]

/-- Without a payload in the store, an embedded UDP packet is rebuilt with none. -/
theorem rebuilds_embedded (faithful : Faithful p direction sent)
    (quiet : sent.hasExplicitPayload = false) (icmpv6 : p.nextHeader = 58) {m : Icmpv6Message}
    {e : Ipv6Packet} (parsed : Icmpv6Message.parse p.payload = .ok m)
    (error : isIcmpv6ErrorType m.messageType) (carries : Ipv6Packet.parse m.payload = .ok e)
    (udp : e.nextHeader = 17) {u : UdpDatagram} (datagram : UdpDatagram.parse e.payload = .ok u)
    (covered : sent.covers (udpHeaders .embedded)) (empty : u.payload = []) :
    reconstructPacketAt 1 (reverseDirection direction) (injected sent m.payload) .embedded =
      .ok (e.recomputed sent .embedded) := by
  have located := packetForScope_embedded icmpv6 parsed error carries
  have others : ∀ q ∈ udpHeaders .embedded, q.key.field ≠ .payload := by
    decide
  rw [← covers_injected m.payload others, udpHeaders, covers_append] at covered
  have carried : carriedCoap (injected sent m.payload) .embedded = .ok [] := by
    rw [carriedCoap, if_neg (fun both => PacketScope.noConfusion both.1)]
  have own : (injected sent m.payload).firstByFieldScope (.udp (.known .udpPayload)) .embedded =
      none := by
    rw [firstByFieldScope_injected m.payload (by simp),
      first_of_silent quiet (by simp [payloadFields])]
  have content : udpPayload (injected sent m.payload) .embedded [] = .ok u.payload := by
    rw [udpPayload, if_pos rfl, sharedPayload, own, payload_injected_embedded quiet, empty]
  have rebuilt := (faithful.injected icmpv6 parsed).reconstructPacketAt_whole_udp located datagram
    udp covered.1 covered.2 carried content 0
  rw [checksum_injected] at rebuilt
  exact rebuilt

theorem icmpv6Queries_own : ∀ messageType : UInt8, ∀ q ∈ icmpv6Queries messageType,
    q.key.field ≠ .payload := by
  apply forall_byte
  decide +kernel

/-- The embedded packet is rebuilt from the store, or it is the injected payload. -/
theorem icmpv6Body_injected (faithful : Faithful p direction sent)
    (quiet : sent.hasExplicitPayload = false) (icmpv6 : p.nextHeader = 58) {m : Icmpv6Message}
    {e : Ipv6Packet} (parsed : Icmpv6Message.parse p.payload = .ok m)
    (error : isIcmpv6ErrorType m.messageType) (carries : Ipv6Packet.parse m.payload = .ok e)
    (datagram : e.nextHeader = 17 → ∃ u, UdpDatagram.parse e.payload = .ok u)
    (embedded : sent.containsFieldScope (.ipv6 (.known .ipv6Version)) .embedded →
      CoversEmbedded e sent) :
    icmpv6Body (reconstructPacketAt 1 (reverseDirection direction) (injected sent m.payload)
        .embedded) (injected sent m.payload) m.messageType = .ok m.payload := by
  have stored := payload_injected quiet m.payload
  have own : (FieldValue.ofBits (ofBytes m.payload)).bytes = m.payload :=
    FieldValue.bytes_ofBits_ofBytes _
  have same := Ipv6Packet.parse_eq_ok.mp carries
  rw [icmpv6Body, if_pos error, icmpv6ErrorBody,
    containsFieldScope_injected m.payload (by simp) .embedded]
  by_cases present : sent.containsFieldScope (.ipv6 (.known .ipv6Version)) .embedded
  · obtain ⟨udp, headers, empty, summed⟩ := embedded present
    obtain ⟨u, parsedUdp⟩ := datagram udp
    have nothing : u.payload = [] := by
      have length := u.length_payload
      rw [UdpDatagram.parse_eq_ok.mp parsedUdp, empty] at length
      exact List.length_eq_zero_iff.mp (by omega)
    have exact_bytes : e.recomputed sent .embedded = e.bytes := by
      rw [Ipv6Packet.recomputed, checksumField, if_pos udp]
      split
      · rfl
      · rename_i unsent
        rcases summed with sent | summed
        · exact absurd sent unsent
        · exact (Ipv6Packet.resummed_eq_iff (hasChecksum_udp udp parsedUdp)).mpr summed
    rw [if_pos present, rebuilds_embedded faithful quiet icmpv6 parsed error carries udp parsedUdp
      headers nothing, ok_bind, exact_bytes, stored, same]
    dsimp only
    rw [own, if_neg (fun other => other rfl)]
  · have has : (injected sent m.payload).containsFieldScope .payload .outer = true := by
      rw [containsFieldScope, stored]
      rfl
    rw [if_neg present, if_pos has, sharedPayload, stored]
    dsimp only
    rw [own, if_neg (fun other => other rfl)]

theorem rebuilds_covered_icmpv6Error (gathered : Gathered p direction state)
    (elides : Elides state.fields sent)
    (carried : carryThroughSuffix p.bytes state = .ok (some suffix)) (icmpv6 : p.nextHeader = 58)
    {m : Icmpv6Message} {e : Ipv6Packet} (parsed : Icmpv6Message.parse p.payload = .ok m)
    (error : isIcmpv6ErrorType m.messageType)
    (covered : sent.covers (ipv6Queries .outer ++ icmpv6Queries m.messageType))
    (carries : Ipv6Packet.parse m.payload = .ok e)
    (datagram : e.nextHeader = 17 → ∃ u, UdpDatagram.parse e.payload = .ok u)
    (embedded : sent.containsFieldScope (.ipv6 (.known .ipv6Version)) .embedded →
      CoversEmbedded e sent) :
    rebuildCarried direction sent suffix = .ok (p.recomputed sent .outer) := by
  obtain ⟨silent, offset, reached, -, rfl⟩ := carryThroughSuffix_some carried
  have faithful : Faithful p direction sent := elides.faithful gathered.read
  have quiet := elides.hasExplicitPayload.trans silent
  obtain ⟨header, message⟩ := covers_append.mp covered
  obtain ⟨typed, -⟩ := faithful.icmpv6Header icmpv6 parsed message
  have present : sent.containsFieldScope (.icmpv6 (.known .icmpv6Type)) .outer := by
    rw [containsFieldScope, typed]
    rfl
  have split := coveredLength_icmpv6 icmpv6 (elides.containsField_left rfl present) parsed reached
  subst split
  rw [drop_icmpv6 parsed]
  have filled : m.payload ≠ [] := by
    intro none
    rw [none] at carries
    cases carries
  have four : 4 ≤ m.payloadOffset := Icmpv6Message.four_le_payloadOffset m.messageType
  have inside : m.payloadOffset ≤ m.bytes.length := m.header
  have joined : cut m.bytes 4 m.payloadOffset ++ m.payload = m.bytes.drop 4 := by
    rw [m.payload_eq]
    exact cut_append_drop m.bytes four inside
  have short : m.payloadOffset + m.payload.length < 65536 := by
    have bound := p.payload_lt
    rw [← Icmpv6Message.parse_eq_ok.mp parsed] at bound
    rw [m.payload_eq, List.length_drop]
    omega
  have validated : validateEmbeddedIpv6Suffix m.payload = .ok () := by
    rw [validateEmbeddedIpv6Suffix, carries, ok_bind]
    by_cases udp : e.nextHeader = 17
    · obtain ⟨u, parsedUdp⟩ := datagram udp
      rw [if_pos udp, parsedUdp, ok_bind]
    · rw [if_neg udp]
  have whole := FieldValue.fromBytes_whole m.payload
  rw [Nat.mul_comm] at whole
  have outerFields : ∀ q ∈ ipv6Queries .outer, q.key.field ≠ .payload := by
    decide
  have messageFields := icmpv6Queries_own m.messageType
  have stored := faithful.header (packetForScope_outer p) header
  rw [← covers_injected m.payload outerFields] at header
  rw [← covers_injected m.payload messageFields] at message
  have rebuilt := (faithful.injected icmpv6 parsed).reconstructPacketAt_icmpv6 icmpv6 parsed header
    message (icmpv6Body_injected faithful quiet icmpv6 parsed error carries datagram embedded) short
  change reconstructPacketAt packetDepth direction (injected sent m.payload) .outer = _ at rebuilt
  have same : ∀ {field : FieldRef} (n k : Nat), field ≠ .payload →
      sentOr (injected sent m.payload) field .outer n k = sentOr sent field .outer n k := by
    intro field n k other
    rw [sentOr, containsFieldScope_injected m.payload other]
    rfl
  rw [same _ _ (by simp), same _ _ (by simp), joined] at rebuilt
  rw [rebuildCarried_suffix direction sent filled]
  apply reconstructPacketWithSuffix_icmpv6 icmpv6 parsed
  rw [joinSuffix, headerOnly_icmpv6 quiet icmpv6 stored.nextHeader typed, ok_bind, error, if_pos rfl,
    validated, ok_bind, whole, ok_bind]
  exact rebuilt

/-- Under the condition the receiver has the packet, but for a checksum that it computes. -/
theorem Covers.rebuilds (covers : Covers p sent) (gathered : Gathered p direction state)
    (elides : Elides state.fields sent)
    (carried : carryThroughSuffix p.bytes state = .ok (some suffix)) :
    rebuildCarried direction sent suffix = .ok (p.recomputed sent .outer) := by
  cases covers with
  | udp udp parsed plain covered =>
    exact rebuilds_covered_udp gathered elides carried udp parsed plain covered
  | coap udp parsed message covered =>
    exact rebuilds_covered_coap gathered elides carried udp parsed message covered
  | icmpv6 icmpv6 parsed ordinary covered =>
    exact rebuilds_covered_icmpv6 gathered elides carried icmpv6 parsed ordinary covered
  | icmpv6Error icmpv6 parsed error covered carries datagram embedded =>
    exact rebuilds_covered_icmpv6Error gathered elides carried icmpv6 parsed error covered carries
      datagram embedded

end

end SchcCore
