import SchcCore.Roundtrip.Needed

/- Where the sender rebuilds the packet from everything that it stored, nothing follows the residue,
   and the receiver rebuilds the packet from what was sent, but for the checksums that it computes. -/
namespace SchcCore
open Outcome Bytes BigEndian BitList FieldStore

/- What does not ask for a computed field has one answer in both stores. -/

section
variable {fields sent : FieldStore}

theorem Elides.firstValueAt (elides : Elides fields sent) {field : FieldRef}
    (apart : isComputeSupported field = false) (scope : PacketScope) :
    firstValueAt sent field scope = firstValueAt fields field scope := by
  rw [SchcCore.firstValueAt, SchcCore.firstValueAt, elides.firstByFieldScope apart]

theorem Elides.covers (elides : Elides fields sent) {queries : List Query}
    (apart : ∀ q ∈ queries, isComputeSupported q.key.field = false) :
    sent.covers queries = fields.covers queries := by
  induction queries with
  | nil => rfl
  | cons q queries ih =>
    have here := elides.containsFieldScope (apart q List.mem_cons_self) q.key.scope
    have rest := ih fun other member => apart other (List.mem_cons_of_mem q member)
    rw [FieldStore.covers, FieldStore.covers] at rest ⊢
    rw [List.all_cons, List.all_cons, here, rest]

theorem Elides.sharedPayload (elides : Elides fields sent) {field : FieldRef}
    (apart : isComputeSupported field = false) (scope : PacketScope) :
    sharedPayload sent scope field = sharedPayload fields scope field := by
  rw [SchcCore.sharedPayload, SchcCore.sharedPayload, elides.firstByFieldScope apart,
    elides.firstByFieldScope rfl]

theorem Elides.coapOptions (elides : Elides fields sent) (scope : PacketScope) :
    coapOptions scope sent = coapOptions scope fields := by
  have plain : ∀ xs : FieldStore, (xs.filter (fun stored => !isComputeSupported stored.1.field)).filter
      (fun stored => stored.1.field.isCoapOption) =
        xs.filter (fun stored => stored.1.field.isCoapOption) := by
    intro xs
    rw [List.filter_filter]
    apply List.filter_congr
    intro stored _
    cases stored.1.field <;> rfl
  rw [coapOptions_filter, ← plain sent, elides.kept, plain, ← coapOptions_filter]

theorem Elides.carriedCoap (elides : Elides fields sent) (scope : PacketScope) :
    carriedCoap sent scope = carriedCoap fields scope := by
  have token : ∀ n, coapToken sent scope n = coapToken fields scope n := by
    intro n
    rw [coapToken, coapToken, elides.firstByFieldScope rfl]
  have header : ∀ name, SchcCore.firstValueAt sent (.coap name) scope =
      SchcCore.firstValueAt fields (.coap name) scope := fun name => elides.firstValueAt rfl scope
  have payload : SchcCore.sharedPayload sent scope (.coap (.known .coapPayload)) =
      SchcCore.sharedPayload fields scope (.coap (.known .coapPayload)) :=
    elides.sharedPayload rfl scope
  have message : reconstructCoap sent scope = reconstructCoap fields scope := by
    simp only [reconstructCoap, firstU8At, firstU16At, header, token, elides.coapOptions, payload]
  rw [SchcCore.carriedCoap, SchcCore.carriedCoap, elides.containsFieldScope rfl, message]

theorem Elides.udpPayload (elides : Elides fields sent) (scope : PacketScope) (coap : List UInt8) :
    udpPayload sent scope coap = udpPayload fields scope coap := by
  rw [SchcCore.udpPayload, SchcCore.udpPayload, elides.sharedPayload rfl,
    elides.firstByFieldScope rfl]

end

/- UDP, in either scope. -/

section
variable {p e : Ipv6Packet} {direction : Direction} {fields sent : FieldStore} {scope : PacketScope}

theorem UdpDatagram.drop_segment (u : UdpDatagram) (length checksum : Nat) (payload : List UInt8) :
    (u.segment length checksum payload).drop 8 = payload := by
  apply List.drop_left'
  simp only [List.length_append, length_toBytes]

theorem Icmpv6Message.drop_segment (m : Icmpv6Message) (checksum : Nat) (content : List UInt8) :
    (m.segment checksum content).drop 4 = content := by
  apply List.drop_left'
  simp only [List.length_append, List.length_cons, List.length_nil, length_toBytes]

/-- A UDP packet that comes out of the whole store comes out of what is sent, but for its
    checksum. -/
theorem Faithful.rebuilt_udp (faithful : Faithful p direction fields) (elides : Elides fields sent)
    (located : packetForScope p.bytes scope = .ok e.bytes) (udp : e.nextHeader = 17)
    {u : UdpDatagram} (parsed : UdpDatagram.parse e.payload = .ok u) {depth : Nat}
    (done : reconstructPacketAt (depth + 1) (scope.orient direction) fields scope = .ok e.bytes)
    (other : Nat) :
    reconstructPacketAt (other + 1) (scope.orient direction) sent scope =
      .ok (e.recomputed sent scope) := by
  have apart : ∀ scope, ∀ q ∈ ipv6Queries scope ++ udpQueries scope,
      isComputeSupported q.key.field = false := by
    intro scope
    cases scope <;> decide
  cases wrote_of_reconstructPacketAt done with
  | udp named made header length =>
    obtain ⟨ports, coap, payload, carried, content, size⟩ := covers_of_reconstructUdp made
    have short : 8 + payload.length < 65536 := by
      have bound := e.payload_lt
      have whole := e.length_payload
      omega
    have rebuilt := faithful.reconstructPacketAt_udp located parsed udp header ports carried content
      short depth
    have same := Except.ok.inj (done.symm.trans rebuilt)
    -- Behind both headers stands the payload.
    have own : payload = u.payload := by
      have behind := congrArg (fun bytes => (bytes.drop 40).drop 8) same
      rw [Ipv6Packet.drop_withUpper, u.drop_segment, e.drop_bytes,
        ← UdpDatagram.parse_eq_ok.mp parsed] at behind
      exact behind.symm
    subst own
    have covered : sent.covers (ipv6Queries scope ++ udpQueries scope) := by
      rw [elides.covers (apart scope), covers_append]
      exact ⟨header, ports⟩
    obtain ⟨header', ports'⟩ := covers_append.mp covered
    exact (elides.faithful faithful).reconstructPacketAt_whole_udp located parsed udp header' ports'
      ((elides.carriedCoap scope).trans carried) ((elides.udpPayload scope coap).trans content) other
  | icmpv6 named made header length =>
    have icmpv6 : e.nextHeader = 58 := faithful.nextHeader located header named
    rw [udp] at icmpv6
    cases icmpv6

/- ICMPv6. -/

theorem Icmpv6Message.drop_error {m : Icmpv6Message} (error : isIcmpv6ErrorType m.messageType) :
    (m.bytes.drop 4).drop 4 = m.payload := by
  rw [List.drop_drop, m.payload_eq, payloadOffset, payloadOffset_eight (.inr error)]

theorem Faithful.icmpv6Code (faithful : Faithful p direction fields) {m : Icmpv6Message}
    (parsed : Icmpv6Message.parse p.payload = .ok m)
    (present : fields.containsFieldScope (.icmpv6 (.known .icmpv6Code)) .outer) :
    Stores fields .outer (.icmpv6 (.known .icmpv6Code)) 8 (byteAt m.bytes 1).toNat := by
  obtain ⟨value, first, read⟩ := faithful.present rfl present
  obtain ⟨m', structured, parsed', extracted⟩ := read.icmpv6
  cases parsed.symm.trans parsed'
  have coded : FieldValue.fromU64 (byteAt m.bytes 1).toNat 8 = .ok value := extracted
  rw [FieldValue.fromU64_eq (by decide) (byteAt m.bytes 1).toNat_lt] at coded
  rw [Stores, first, word, Except.ok.inj coded]

theorem Elides.icmpv6TypeWord (elides : Elides fields sent) (messageType : UInt8) :
    icmpv6TypeWord sent .outer messageType = icmpv6TypeWord fields .outer messageType := by
  unfold SchcCore.icmpv6TypeWord
  rw [elides.firstByFieldScope rfl, elides.firstByFieldScope (by split <;> rfl)]

theorem Elides.icmpv6Content (elides : Elides fields sent) (inner : Result (List UInt8))
    (messageType : UInt8) :
    icmpv6Content inner sent messageType = icmpv6Content inner fields messageType := by
  have body : icmpv6ErrorBody inner sent .outer = icmpv6ErrorBody inner fields .outer := by
    unfold icmpv6ErrorBody
    rw [elides.containsFieldScope rfl, elides.containsFieldScope rfl, elides.firstByFieldScope rfl,
      elides.sharedPayload rfl]
  have word (name : KnownName) (apart : isComputeSupported (.icmpv6 (.known name)) = false) :
      firstU16At sent (.icmpv6 (.known name)) .outer =
        firstU16At fields (.icmpv6 (.known name)) .outer := by
    rw [firstU16At, firstU16At, elides.firstValueAt apart]
  have words : echoWords sent .outer messageType = echoWords fields .outer messageType := by
    rw [echoWords, echoWords, elides.containsFieldScope rfl, word .icmpv6Identifier rfl,
      word .icmpv6Sequence rfl]
  rw [SchcCore.icmpv6Content, SchcCore.icmpv6Content, elides.icmpv6TypeWord, body, words,
    elides.sharedPayload rfl]

/-- Where the store describes an embedded packet, its rebuild stands behind the word of the type. -/
theorem carried_of_icmpv6Content {inner : Result (List UInt8)} {messageType : UInt8}
    {content : List UInt8} (error : isIcmpv6ErrorType messageType)
    (present : fields.containsFieldScope (.ipv6 (.known .ipv6Version)) .embedded)
    (made : icmpv6Content inner fields messageType = .ok content) :
    ∃ typeWord carried, icmpv6TypeWord fields .outer messageType = .ok typeWord ∧
      typeWord.bytes.length = 4 ∧ inner = .ok carried ∧ typeWord.bytes ++ carried = content := by
  rw [icmpv6Content, if_pos error, bind_eq_ok] at made
  obtain ⟨typeWord, read, made⟩ := made
  split at made
  · cases made
  · rename_i sized
    simp only [icmpv6ErrorBody, if_pos present, bind_eq_ok] at made
    obtain ⟨body, ⟨carried, rebuilt, kept⟩, made⟩ := made
    cases made
    have four : typeWord.bytes.length = 4 := by
      by_contra other
      exact sized (.inr other)
    have same : carried = body := by
      split at kept
      · split at kept
        · cases kept
        · exact Except.ok.inj kept
      · exact Except.ok.inj kept
    exact ⟨typeWord, carried, read, four, rebuilt, by rw [same]⟩

theorem inner_of_icmpv6Content {inner : Result (List UInt8)} {messageType : UInt8}
    {content : List UInt8} (error : isIcmpv6ErrorType messageType)
    (present : fields.containsFieldScope (.ipv6 (.known .ipv6Version)) .embedded)
    (made : icmpv6Content inner fields messageType = .ok content) : inner = .ok (content.drop 4) := by
  obtain ⟨typeWord, carried, -, four, rebuilt, rfl⟩ := carried_of_icmpv6Content error present made
  rw [List.drop_left' four, rebuilt]

/-- Otherwise what an error carries is not rebuilt. -/
theorem icmpv6Content_without_inner (inner other : Result (List UInt8)) {messageType : UInt8}
    (absent : ¬ fields.containsFieldScope (.ipv6 (.known .ipv6Version)) .embedded) :
    icmpv6Content inner fields messageType = icmpv6Content other fields messageType := by
  have body : icmpv6ErrorBody inner fields .outer = icmpv6ErrorBody other fields .outer := by
    rw [icmpv6ErrorBody, icmpv6ErrorBody, if_neg absent, if_neg absent]
  rw [icmpv6Content, icmpv6Content, body]

/-- The checksum of an embedded packet that is rebuilt was sent, or it is the computed one. -/
def SumsEmbedded (p : Ipv6Packet) (sent : FieldStore) : Prop :=
  sent.containsFieldScope (.ipv6 (.known .ipv6Version)) .embedded →
    ∀ m e, Icmpv6Message.parse p.payload = .ok m → Ipv6Packet.parse m.payload = .ok e →
      sent.containsFieldScope (.udp (.known .udpChecksum)) .embedded ∨ e.Checksummed

/-- An ICMPv6 packet that comes out of a store has the header that was read, in front of its
    content. -/
theorem Faithful.content_of_written (faithful : Faithful p direction fields)
    (icmpv6 : p.nextHeader = 58) {packet : List UInt8}
    (done : reconstructPacketAt packetDepth direction fields .outer = .ok packet) :
    ∃ m content, Icmpv6Message.parse p.payload = .ok m ∧ fields.covers (ipv6Queries .outer) ∧
      Stores fields .outer (.icmpv6 (.known .icmpv6Type)) 8 m.messageType.toNat ∧
      Stores fields .outer (.icmpv6 (.known .icmpv6Code)) 8 (byteAt m.bytes 1).toNat ∧
      icmpv6Content (reconstructPacketAt 1 (reverseDirection direction) fields .embedded) fields
        m.messageType = .ok content ∧ packet.length = 40 + (4 + content.length) := by
  cases wrote_of_reconstructPacketAt done with
  | udp named made header length =>
    have udp : p.nextHeader = 17 := faithful.nextHeader (packetForScope_outer p) header named
    rw [icmpv6] at udp
    cases udp
  | @icmpv6 upper _ named made header length =>
    obtain ⟨m, parsed, typed, present, -⟩ := wrote_of_reconstructIcmpv6 faithful made
    have coded := faithful.icmpv6Code parsed present
    rw [faithful.reconstructIcmpv6_content parsed typed coded, bind_eq_ok] at made
    obtain ⟨content, made, written⟩ := made
    have size : upper.length = 4 + content.length :=
      (congrArg (fun written => written.1.length) (Except.ok.inj written)).symm.trans
        (m.length_segment _ content)
    exact ⟨m, content, parsed, header, typed, coded, made, by rw [length, size]⟩

/-- An ICMPv6 packet that comes out of the whole store was written from all its content. -/
theorem Faithful.content_of_rebuilt (faithful : Faithful p direction fields)
    (icmpv6 : p.nextHeader = 58)
    (done : reconstructPacketAt packetDepth direction fields .outer = .ok p.bytes) :
    ∃ m, Icmpv6Message.parse p.payload = .ok m ∧ fields.covers (ipv6Queries .outer) ∧
      Stores fields .outer (.icmpv6 (.known .icmpv6Type)) 8 m.messageType.toNat ∧
      Stores fields .outer (.icmpv6 (.known .icmpv6Code)) 8 (byteAt m.bytes 1).toNat ∧
      icmpv6Content (reconstructPacketAt 1 (reverseDirection direction) fields .embedded) fields
        m.messageType = .ok (m.bytes.drop 4) := by
  obtain ⟨m, content, parsed, header, typed, coded, made, length⟩ :=
    faithful.content_of_written icmpv6 done
  have short : 4 + content.length < 65536 := by
    have bound := p.payload_lt
    have whole := p.length_payload
    omega
  have rebuilt := faithful.reconstructPacketAt_content icmpv6 parsed header typed coded made short
  have same := Except.ok.inj (done.symm.trans rebuilt)
  have own : content = m.bytes.drop 4 := by
    have behind := congrArg (fun bytes => (bytes.drop 40).drop 4) same
    rw [Ipv6Packet.drop_withUpper, m.drop_segment, p.drop_bytes,
      ← Icmpv6Message.parse_eq_ok.mp parsed] at behind
    exact behind.symm
  exact ⟨m, parsed, header, typed, coded, own ▸ made⟩

/-- The packet that an error carries, as the store describes it, is UDP and comes out of what is
    sent but for its checksum. -/
theorem Faithful.rebuilt_embedded (faithful : Faithful p direction fields)
    (elides : Elides fields sent) {m : Icmpv6Message}
    (parsed : Icmpv6Message.parse p.payload = .ok m)
    (present : fields.containsFieldScope (.ipv6 (.known .ipv6Version)) .embedded)
    (made : icmpv6Content (reconstructPacketAt 1 (reverseDirection direction) fields .embedded)
      fields m.messageType = .ok (m.bytes.drop 4)) :
    ∃ e u, Ipv6Packet.parse m.payload = .ok e ∧ e.nextHeader = 17 ∧
      UdpDatagram.parse e.payload = .ok u ∧ isIcmpv6ErrorType m.messageType ∧
      reconstructPacketAt 1 (reverseDirection direction) sent .embedded =
        .ok (e.recomputed sent .embedded) := by
  obtain ⟨_, -, read⟩ := faithful.present rfl present
  obtain ⟨m', e, icmpv6, parsed', error, carries⟩ := read.embedded
  cases parsed.symm.trans parsed'
  have located := packetForScope_embedded icmpv6 parsed error carries
  have done := inner_of_icmpv6Content error present made
  rw [Icmpv6Message.drop_error error, ← Ipv6Packet.parse_eq_ok.mp carries] at done
  cases wrote_of_reconstructPacketAt done with
  | udp named wrote header length =>
    have udp : e.nextHeader = 17 := faithful.nextHeader located header named
    obtain ⟨ports, -⟩ := covers_of_reconstructUdp wrote
    obtain ⟨_, -, port⟩ := faithful.present rfl (covers_mem ports List.mem_cons_self)
    obtain ⟨u, datagram, -⟩ := port.udp located
    exact ⟨e, u, carries, udp, datagram, error, faithful.rebuilt_udp elides located udp datagram done 0⟩
  | icmpv6 named wrote header length =>
    obtain ⟨_, -, typed⟩ := faithful.present rfl (typed_of_reconstructIcmpv6 wrote)
    cases typed.outer rfl

/-- The embedded packet comes out of what is sent as it is exactly when its checksum does. -/
theorem sumsEmbedded_iff {m : Icmpv6Message} {u : UdpDatagram}
    (parsed : Icmpv6Message.parse p.payload = .ok m) (carries : Ipv6Packet.parse m.payload = .ok e)
    (udp : e.nextHeader = 17) (datagram : UdpDatagram.parse e.payload = .ok u)
    (present : sent.containsFieldScope (.ipv6 (.known .ipv6Version)) .embedded) :
    SumsEmbedded p sent ↔ e.recomputed sent .embedded = e.bytes := by
  have own : e.recomputed sent .embedded = e.bytes ↔
      sent.containsFieldScope (.udp (.known .udpChecksum)) .embedded ∨ e.Checksummed := by
    rw [Ipv6Packet.recomputed, checksumField, if_pos udp]
    by_cases checksum : sent.containsFieldScope (.udp (.known .udpChecksum)) .embedded
    · simp [checksum]
    · rw [if_neg checksum, Ipv6Packet.resummed_eq_iff (hasChecksum_udp udp datagram)]
      simp [checksum]
  rw [own]
  constructor
  · intro sums
    exact sums present m e parsed carries
  · intro holds _ m' e' parsed' carries'
    cases parsed.symm.trans parsed'
    cases carries.symm.trans carries'
    exact holds

theorem Faithful.rebuilt_icmpv6 (faithful : Faithful p direction fields) (elides : Elides fields sent)
    (icmpv6 : p.nextHeader = 58)
    (done : reconstructPacketAt packetDepth direction fields .outer = .ok p.bytes)
    (sums : SumsEmbedded p sent) :
    reconstructPacketAt packetDepth direction sent .outer = .ok (p.recomputed sent .outer) := by
  obtain ⟨m, parsed, header, typed, coded, made⟩ := faithful.content_of_rebuilt icmpv6 done
  have faithful' := elides.faithful faithful
  have header' : sent.covers (ipv6Queries .outer) := by
    rw [elides.covers (by decide)]
    exact header
  have typed' : Stores sent .outer (.icmpv6 (.known .icmpv6Type)) 8 m.messageType.toNat :=
    (elides.firstByFieldScope rfl .outer).trans typed
  have coded' : Stores sent .outer (.icmpv6 (.known .icmpv6Code)) 8 (byteAt m.bytes 1).toNat :=
    (elides.firstByFieldScope rfl .outer).trans coded
  refine faithful'.reconstructPacketAt_whole_content icmpv6 parsed header' typed' coded' ?_
  rw [elides.icmpv6Content]
  by_cases present : fields.containsFieldScope (.ipv6 (.known .ipv6Version)) .embedded
  · obtain ⟨e, u, carries, udp, datagram, error, rebuilt⟩ :=
      faithful.rebuilt_embedded elides parsed present made
    have present' : sent.containsFieldScope (.ipv6 (.known .ipv6Version)) .embedded :=
      (elides.containsFieldScope rfl .embedded).trans present
    rw [rebuilt, (sumsEmbedded_iff parsed carries udp datagram present').mp sums]
    have inner := inner_of_icmpv6Content error present made
    rw [Icmpv6Message.drop_error error, ← Ipv6Packet.parse_eq_ok.mp carries] at inner
    rw [← inner]
    exact made
  · rw [icmpv6Content_without_inner _ _ present]
    exact made

theorem udp_of_validatePacketLengths (udp : p.nextHeader = 17)
    (valid : validatePacketLengths p.bytes = .ok ()) :
    ∃ u, UdpDatagram.parse p.payload = .ok u := by
  rw [validatePacketLengths, if_pos ⟨p.header, p.version⟩, Ipv6Packet.parse_bytes, ok_bind,
    if_pos udp, bind_eq_ok] at valid
  obtain ⟨u, parsed, -⟩ := valid
  exact ⟨u, parsed⟩

/-- Where the whole store gives the packet, what is sent gives it but for the checksum, provided
    that the checksum of an embedded packet comes out right. -/
theorem Faithful.rebuilt (faithful : Faithful p direction fields) (elides : Elides fields sent)
    (done : reconstructPacket direction fields = .ok p.bytes) (sums : SumsEmbedded p sent) :
    reconstructPacket direction sent = .ok (p.recomputed sent .outer) := by
  simp only [reconstructPacket, bind_eq_ok] at done
  obtain ⟨packet, done, _, lengths, same⟩ := done
  cases same
  have recomputes : p.HasChecksum ∧ (p.nextHeader = 17 → ∃ u, UdpDatagram.parse p.payload = .ok u) ∧
      reconstructPacketAt packetDepth direction sent .outer = .ok (p.recomputed sent .outer) := by
    cases wrote_of_reconstructPacketAt done with
    | udp named made header length =>
      have udp : p.nextHeader = 17 := faithful.nextHeader (packetForScope_outer p) header named
      obtain ⟨u, parsed⟩ := udp_of_validatePacketLengths udp lengths
      exact ⟨hasChecksum_udp udp parsed, fun _ => ⟨u, parsed⟩,
        faithful.rebuilt_udp elides (packetForScope_outer p) udp parsed done 1⟩
    | icmpv6 named made header length =>
      have icmpv6 : p.nextHeader = 58 := faithful.nextHeader (packetForScope_outer p) header named
      obtain ⟨m, parsed, -⟩ := faithful.content_of_rebuilt icmpv6 done
      have other : ¬ p.nextHeader = 17 := by
        rw [icmpv6]
        decide
      exact ⟨hasChecksum_icmpv6 icmpv6 parsed, fun udp => absurd udp other,
        faithful.rebuilt_icmpv6 elides icmpv6 done sums⟩
  obtain ⟨room, udp, rebuilt⟩ := recomputes
  rw [reconstructPacket, rebuilt, ok_bind, validate_recomputed room udp, ok_bind]

/-- Where what is sent gives the packet itself, the checksum of an embedded packet came out
    right. -/
theorem Faithful.sumsEmbedded (faithful : Faithful p direction fields) (elides : Elides fields sent)
    (done : reconstructPacket direction fields = .ok p.bytes)
    (exact : reconstructPacket direction sent = .ok p.bytes) : SumsEmbedded p sent := by
  intro present m e parsed carries
  have present' : fields.containsFieldScope (.ipv6 (.known .ipv6Version)) .embedded :=
    (elides.containsFieldScope rfl .embedded).symm.trans present
  obtain ⟨_, -, read⟩ := faithful.present rfl present'
  obtain ⟨_, _, icmpv6, -⟩ := read.embedded
  simp only [reconstructPacket, bind_eq_ok] at done exact
  obtain ⟨_, done, _, -, same⟩ := done
  cases same
  obtain ⟨_, exact, _, -, same⟩ := exact
  cases same
  obtain ⟨m', parsed', -, -, -, made⟩ := faithful.content_of_rebuilt icmpv6 done
  cases parsed.symm.trans parsed'
  obtain ⟨e', u, carries', udp, datagram, error, rebuilt⟩ :=
    faithful.rebuilt_embedded elides parsed present' made
  cases carries.symm.trans carries'
  obtain ⟨m', parsed', -, -, -, made'⟩ := (elides.faithful faithful).content_of_rebuilt icmpv6 exact
  cases parsed.symm.trans parsed'
  have inner := inner_of_icmpv6Content error present made'
  rw [rebuilt, Icmpv6Message.drop_error error, ← Ipv6Packet.parse_eq_ok.mp carries] at inner
  exact (sumsEmbedded_iff parsed carries udp datagram present).mpr (Except.ok.inj inner) present m e
    parsed carries

end
end SchcCore
