import SchcCore.Roundtrip.Split

/- What a rebuild needs. Where the receiver rebuilds a packet of the right length, the store has
   every field of the headers it wrote. -/
namespace SchcCore
open Outcome Bytes BigEndian BitList FieldStore

section
variable {fields : FieldStore} {field : FieldRef} {scope : PacketScope} {direction : Direction}

theorem present_of_firstValueAt {value : FieldValue}
    (read : firstValueAt fields field scope = .ok value) : fields.containsFieldScope field scope := by
  unfold firstValueAt at read
  split at read
  · rename_i stored found
    rw [containsFieldScope, found]
    rfl
  · cases read

theorem present_of_firstU8At {n : Nat} (read : firstU8At fields field scope = .ok n) :
    fields.containsFieldScope field scope := by
  simp only [firstU8At, bind_eq_ok] at read
  obtain ⟨value, found, -⟩ := read
  exact present_of_firstValueAt found

theorem present_of_firstU16At {n : Nat} (read : firstU16At fields field scope = .ok n) :
    fields.containsFieldScope field scope := by
  simp only [firstU16At, bind_eq_ok] at read
  obtain ⟨value, found, -⟩ := read
  exact present_of_firstValueAt found

theorem present_of_firstUsizeAt {n : Nat} (read : firstUsizeAt fields field scope = .ok n) :
    fields.containsFieldScope field scope := by
  simp only [firstUsizeAt, bind_eq_ok] at read
  obtain ⟨value, found, -⟩ := read
  exact present_of_firstValueAt found

theorem present_of_endpointAddress {prefixField iidField : FieldRef} {address : List UInt8}
    (made : endpointAddress fields scope prefixField iidField = .ok address) :
    fields.containsFieldScope prefixField scope ∧ fields.containsFieldScope iidField scope := by
  simp only [endpointAddress, bind_eq_ok] at made
  obtain ⟨_, first, _, second, -⟩ := made
  exact ⟨present_of_firstValueAt first, present_of_firstValueAt second⟩

theorem withChecksum_length {source destination upper filled : List UInt8} {nextHeader : UInt8}
    {computeChecksum : Bool}
    (done : withChecksum source destination nextHeader upper computeChecksum = .ok filled) :
    filled.length = upper.length := by
  unfold withChecksum at done
  split at done
  · rw [bind_eq_ok] at done
    obtain ⟨start, -, done⟩ := done
    unfold copyInto at done
    split at done
    · cases done
      exact length_overwrite ‹_›
    · cases done
  · cases done
    rfl

/-- A header is written from all its fields. -/
theorem covers_of_reconstructIpv6WithUpper {nextHeader : UInt8} {upper packet : List UInt8}
    {computeChecksum : Bool}
    (named : fields.containsFieldScope (.ipv6 (.known .ipv6NextHeader)) scope)
    (done : reconstructIpv6WithUpper direction fields scope nextHeader upper computeChecksum =
      .ok packet) : fields.covers (ipv6Queries scope) ∧ packet.length = 40 + upper.length := by
  obtain ⟨source, destination, filled, -, -, summed, headed⟩ := reconstructIpv6WithUpper_headed done
  have size := withChecksum_length summed
  simp only [reconstructIpv6WithUpper, endpointAddresses, bind_eq_ok] at done
  obtain ⟨_, version, _, trafficClass, _, flowLabel, _, hopLimit, _, -, _,
    ⟨_, device, _, application, -⟩, -⟩ := done
  have deviceParts := present_of_endpointAddress device
  have applicationParts := present_of_endpointAddress application
  constructor
  · simp only [FieldStore.covers, ipv6Queries, List.map_cons, List.map_nil, List.all_cons,
      List.all_nil, Bool.and_true, Bool.and_eq_true]
    exact ⟨present_of_firstU8At version, present_of_firstU8At trafficClass,
      present_of_firstUsizeAt flowLabel, named, present_of_firstU8At hopLimit, deviceParts.1,
      deviceParts.2, applicationParts.1, applicationParts.2⟩
  · rw [headed.length, size]

/-- What `reconstruct_packet_at` wrote: a header around a UDP datagram or an ICMPv6 message. -/
inductive Wrote (inner : Result (List UInt8)) (direction : Direction) (fields : FieldStore)
    (scope : PacketScope) (packet : List UInt8) : Prop
  | udp {upper : List UInt8} {computeChecksum : Bool} :
      firstU8At fields (.ipv6 (.known .ipv6NextHeader)) scope = .ok 17 →
      reconstructUdp direction fields scope = .ok (upper, computeChecksum) →
      fields.covers (ipv6Queries scope) → packet.length = 40 + upper.length →
      Wrote inner direction fields scope packet
  | icmpv6 {upper : List UInt8} {computeChecksum : Bool} :
      firstU8At fields (.ipv6 (.known .ipv6NextHeader)) scope = .ok 58 →
      reconstructIcmpv6 inner fields scope = .ok (upper, computeChecksum) →
      fields.covers (ipv6Queries scope) → packet.length = 40 + upper.length →
      Wrote inner direction fields scope packet

theorem wrote_of_reconstructPacketAt {depth : Nat} {packet : List UInt8}
    (done : reconstructPacketAt (depth + 1) direction fields scope = .ok packet) :
    Wrote (reconstructPacketAt depth (reverseDirection direction) fields .embedded) direction fields
      scope packet := by
  rw [reconstructPacketAt, bind_eq_ok] at done
  obtain ⟨nextHeader, named, done⟩ := done
  have present := present_of_firstU8At named
  by_cases udp : nextHeader = 17
  · subst udp
    rw [if_pos rfl, bind_eq_ok] at done
    obtain ⟨⟨upper, computeChecksum⟩, made, done⟩ := done
    obtain ⟨covered, length⟩ := covers_of_reconstructIpv6WithUpper present done
    exact .udp named made covered length
  · rw [if_neg udp] at done
    by_cases icmpv6 : nextHeader = 58
    · subst icmpv6
      rw [if_pos rfl, bind_eq_ok] at done
      obtain ⟨⟨upper, computeChecksum⟩, made, done⟩ := done
      obtain ⟨covered, length⟩ := covers_of_reconstructIpv6WithUpper present done
      exact .icmpv6 named made covered length
    · rw [if_neg icmpv6] at done
      cases done

/-- A UDP datagram is written from its ports, around the CoAP message or the payload. -/
theorem covers_of_reconstructUdp {upper : List UInt8} {computeChecksum : Bool}
    (done : reconstructUdp direction fields scope = .ok (upper, computeChecksum)) :
    fields.covers (udpQueries scope) ∧ ∃ coap payload, carriedCoap fields scope = .ok coap ∧
      udpPayload fields scope coap = .ok payload ∧ upper.length = 8 + payload.length := by
  simp only [reconstructUdp, bind_eq_ok] at done
  obtain ⟨coap, carried, _, devPort, _, appPort, payload, content, _, -, _, -, done⟩ := done
  constructor
  · simp only [FieldStore.covers, udpQueries, List.map_cons, List.map_nil, List.all_cons,
      List.all_nil, Bool.and_true, Bool.and_eq_true]
    exact ⟨present_of_firstU16At devPort, present_of_firstU16At appPort⟩
  · refine ⟨coap, payload, carried, content, ?_⟩
    cases direction <;> cases done <;> simp only [List.length_append, length_toBytes]

/- The last step keeps the length. -/

theorem length_of_patchUpper {nextHeader : UInt8} {packet patched : List UInt8}
    (done : patchUpper fields nextHeader packet = .ok patched) : patched.length = packet.length := by
  unfold patchUpper at done
  split at done
  · unfold patchUdp at done
    split at done
    · cases done
    · rename_i long
      rw [bind_eq_ok] at done
      obtain ⟨counted, first, done⟩ := done
      have same := length_of_patchLength first
      have kept := length_patchedChecksum fields (.udp (.known .udpChecksum))
        (transportChecksum (cut counted 8 24) (cut counted 24 40) 17
          ((overwrite counted 46 [0, 0]).drop 40)) (show 46 + 2 ≤ counted.length by omega)
      rw [patchChecksum_eq _ _ _ (by decide) (by omega), ok_bind] at done
      split at done
      · simp only [bind_eq_ok] at done
        obtain ⟨_, -, _, -, done⟩ := done
        cases done
        exact kept.trans same
      · cases done
        exact kept.trans same
  · split at done
    · unfold patchIcmpv6 at done
      split at done
      · cases done
      · rename_i long
        have kept := length_patchedChecksum fields (.icmpv6 (.known .icmpv6Checksum))
          (transportChecksum (cut packet 8 24) (cut packet 24 40) 58
            ((overwrite packet 42 [0, 0]).drop 40)) (show 42 + 2 ≤ packet.length by omega)
        rw [patchChecksum_eq _ _ _ (by decide) (by omega), ok_bind] at done
        simp only [bind_eq_ok] at done
        obtain ⟨_, -, _, -, done⟩ := done
        cases done
        exact kept
    · cases done
      rfl

theorem joined_of_reconstructPacketWithSuffix {suffix packet : List UInt8}
    (done : reconstructPacketWithSuffix direction fields suffix = .ok packet) :
    ∃ joined, joinSuffix direction fields suffix = .ok joined ∧ packet.length = joined.length := by
  rw [reconstructPacketWithSuffix, bind_eq_ok] at done
  obtain ⟨joined, made, done⟩ := done
  refine ⟨joined, made, ?_⟩
  split at done
  · cases done
  · simp only [bind_eq_ok] at done
    obtain ⟨_, -, counted, first, patched, second, _, -, done⟩ := done
    cases done
    rw [length_of_patchUpper second, length_of_patchLength first]

end

/- What a rebuild with a suffix wrote. -/

section
variable {p e : Ipv6Packet} {direction : Direction} {fields sent : FieldStore}
  {scope : PacketScope} {suffix packet : List UInt8}

/-- The rebuilt header stands in front of the suffix, or around it. -/
inductive Rejoined (direction : Direction) (sent : FieldStore) (suffix rebuilt : List UInt8) : Prop
  | appended {packet : List UInt8} : (suffix ≠ [] → headerOnlyIcmpError sent = .ok false) →
      reconstructPacketAt packetDepth direction sent .outer = .ok packet →
      rebuilt.length = packet.length + suffix.length → Rejoined direction sent suffix rebuilt
  | injected {packet : List UInt8} : headerOnlyIcmpError sent = .ok true →
      validateEmbeddedIpv6Suffix suffix = .ok () →
      reconstructPacketAt packetDepth direction (injected sent suffix) .outer = .ok packet →
      Rejoined direction sent suffix rebuilt

theorem rejoined_of_rebuildCarried {rebuilt : List UInt8}
    (done : rebuildCarried direction sent suffix = .ok rebuilt) :
    Rejoined direction sent suffix rebuilt := by
  by_cases none : suffix = []
  · subst none
    rw [rebuildCarried_nil, reconstructPacket, bind_eq_ok] at done
    obtain ⟨packet, made, done⟩ := done
    rw [bind_eq_ok] at done
    obtain ⟨_, -, done⟩ := done
    cases done
    exact .appended (fun filled => absurd rfl filled) made rfl
  · rw [rebuildCarried_suffix direction sent none] at done
    obtain ⟨joined, made, length⟩ := joined_of_reconstructPacketWithSuffix done
    rw [joinSuffix, bind_eq_ok] at made
    obtain ⟨injects, verdict, made⟩ := made
    cases injects with
    | false =>
      rw [if_neg Bool.false_ne_true, bind_eq_ok] at made
      obtain ⟨packet, base, made⟩ := made
      cases made
      rw [List.length_append] at length
      exact .appended (fun _ => verdict) base length
    | true =>
      rw [if_pos rfl, bind_eq_ok] at made
      obtain ⟨_, valid, made⟩ := made
      have whole := FieldValue.fromBytes_whole suffix
      rw [Nat.mul_comm] at whole
      rw [whole, ok_bind] at made
      exact .injected verdict valid made

/-- The next header that a rebuild read is the packet's. -/
theorem Faithful.nextHeader (faithful : Faithful p direction fields)
    (located : packetForScope p.bytes scope = .ok e.bytes)
    (header : fields.covers (ipv6Queries scope)) {n : UInt8}
    (named : firstU8At fields (.ipv6 (.known .ipv6NextHeader)) scope = .ok n.toNat) :
    e.nextHeader = n := by
  have stored := faithful.header located header
  rw [stored.nextHeader.firstU8At (by decide) e.nextHeader.toNat_lt] at named
  exact UInt8.toNat_inj.mp (Except.ok.inj named)

/- CoAP. -/

theorem CoapMessage.four_le_toVec {m : CoapMessage} {bytes : List UInt8}
    (written : m.toVec = .ok bytes) : 4 ≤ bytes.length := by
  unfold CoapMessage.toVec at written
  split at written
  · cases written
  · rw [bind_eq_ok] at written
    obtain ⟨options, -, written⟩ := written
    cases written
    simp only [List.length_cons, List.length_append, length_toBytes]
    omega

/-- A CoAP message is written from all fields of its header. -/
theorem covers_of_reconstructCoap (faithful : Faithful p direction sent) {u : UdpDatagram}
    {m : CoapMessage} (parsed : UdpDatagram.parse p.payload = .ok u)
    (message : CoapMessage.parse u.payload = .ok m) {bytes : List UInt8}
    (done : reconstructCoap sent .outer = .ok bytes) : sent.covers (coapHeaderQueries m) := by
  have answered : Answered p.bytes direction false .initial _ :=
    answered_coap (packetForScope_outer p) parsed message
  have small : m.token.length < 2 ^ 4 := by
    have short := (CoapMessage.header_of_parse message).tokenShort
    omega
  simp only [reconstructCoap, bind_eq_ok] at done
  obtain ⟨_, version, _, messageType, tokenLen, length, _, code, _, messageId, done⟩ := done
  have counted : Stores sent .outer (.coap (.known .coapTkl)) 4 m.token.length :=
    faithful.answer answered (List.mem_append_left _ (List.mem_cons_of_mem _ (List.mem_cons_of_mem _
      List.mem_cons_self))) rfl (present_of_firstU8At length)
  rw [counted.firstU8At (by decide) small] at length
  cases length
  rw [coapHeaderQueries, covers_append]
  constructor
  · simp only [FieldStore.covers, List.map_cons, List.map_nil, List.all_cons, List.all_nil,
      Bool.and_true, Bool.and_eq_true]
    exact ⟨present_of_firstU8At version, present_of_firstU8At messageType, by
      change sent.containsFieldScope (.coap (.known .coapTkl)) .outer = true
      rw [containsFieldScope, counted]
      rfl, present_of_firstU8At code, present_of_firstU16At messageId⟩
  · split
    · rfl
    · rename_i filled
      split at done
      · cases done
      · rw [bind_eq_ok] at done
        obtain ⟨token, read, -⟩ := done
        unfold coapToken at read
        split at read
        · rename_i value first
          simp only [FieldStore.covers, List.all_cons, List.all_nil, Bool.and_true]
          change sent.containsFieldScope (.coap (.known .coapToken)) .outer = true
          rw [containsFieldScope, first]
          rfl
        · rw [if_neg (fun none => filled (List.length_eq_zero_iff.mp none))] at read
          cases read

/-- Where the sender counts a CoAP header among what the rule covers, the receiver writes one. -/
theorem covers_of_rebuilt_udp {state : CompressionState} (gathered : Gathered p direction state)
    (elides : Elides state.fields sent)
    (carried : carryThroughSuffix p.bytes state = .ok (some suffix)) (udp : p.nextHeader = 17)
    (header : sent.covers (ipv6Queries .outer)) {upper : List UInt8} {computeChecksum : Bool}
    (made : reconstructUdp direction sent .outer = .ok (upper, computeChecksum))
    (length : 40 + upper.length + suffix.length = p.bytes.length) : Covers p sent := by
  obtain ⟨silent, offset, reached, inside, rfl⟩ := carryThroughSuffix_some carried
  have faithful : Faithful p direction sent := elides.faithful gathered.read
  have quiet := elides.hasExplicitPayload.trans silent
  obtain ⟨ports, coap, payload, written, content, size⟩ := covers_of_reconstructUdp made
  have headers : sent.covers (udpHeaders .outer) := by
    rw [udpHeaders, covers_append]
    exact ⟨header, ports⟩
  have port := covers_port headers
  by_cases structured : sent.hasCoap
  · rw [elides.hasCoap] at structured
    obtain ⟨u, m, boundary, leading, bytes, parsed, message, -, -, encoded, rfl⟩ :=
      coveredLength_coap udp (elides.containsField_left rfl port) structured reached
    have four := CoapMessage.four_le_toVec encoded
    rw [udpPayload_silent quiet] at content
    have same : coap = payload := Except.ok.inj content
    rw [List.length_drop] at length
    have filled : coap ≠ [] := by
      intro none
      rw [← same, none, List.length_nil] at size
      omega
    unfold carriedCoap at written
    split at written
    · have whole := covers_of_reconstructCoap faithful parsed message written
      exact .coap udp parsed message (covers_append.mpr ⟨headers, whole⟩)
    · cases written
      exact absurd rfl filled
  · obtain ⟨value, -, read⟩ := faithful.present rfl port
    obtain ⟨u, parsed, -⟩ := read.udp (packetForScope_outer p)
    exact .udp udp parsed (by simpa using structured) headers

/- ICMPv6. -/

/-- What `reconstruct_icmpv6` wrote behind the header of four bytes. -/
inductive WroteIcmpv6 (inner : Result (List UInt8)) (fields : FieldStore) (m : Icmpv6Message)
    (upper : List UInt8) : Prop
  | error {word : FieldValue} {body : List UInt8} : isIcmpv6ErrorType m.messageType →
      icmpv6TypeWord fields .outer m.messageType = .ok word →
      icmpv6ErrorBody inner fields .outer = .ok body → WroteIcmpv6 inner fields m upper
  | ordinary {words payload : List UInt8} : isIcmpv6ErrorType m.messageType = false →
      echoWords fields .outer m.messageType = .ok words →
      sharedPayload fields .outer (.icmpv6 (.known .icmpv6Payload)) = .ok payload →
      upper.length = 4 + words.length + payload.length → WroteIcmpv6 inner fields m upper

/-- An ICMPv6 message is written from its type and its code. -/
theorem wrote_of_reconstructIcmpv6 (faithful : Faithful p direction fields)
    {inner : Result (List UInt8)} {upper : List UInt8} {computeChecksum : Bool}
    (done : reconstructIcmpv6 inner fields .outer = .ok (upper, computeChecksum)) :
    ∃ m, Icmpv6Message.parse p.payload = .ok m ∧
      Stores fields .outer (.icmpv6 (.known .icmpv6Type)) 8 m.messageType.toNat ∧
      fields.containsFieldScope (.icmpv6 (.known .icmpv6Code)) .outer ∧
      WroteIcmpv6 inner fields m upper := by
  simp only [reconstructIcmpv6, bind_eq_ok] at done
  obtain ⟨messageType, typed, _, code, ⟨checksum, compute⟩, -, done⟩ := done
  obtain ⟨value, first, read⟩ := faithful.present rfl (present_of_firstU8At typed)
  obtain ⟨m, structured, parsed, extracted⟩ := read.icmpv6
  have whole : FieldValue.fromU64 m.messageType.toNat 8 = .ok value := extracted
  rw [FieldValue.fromU64_eq (by decide) m.messageType.toNat_lt] at whole
  have stored : Stores fields .outer (.icmpv6 (.known .icmpv6Type)) 8 m.messageType.toNat := by
    rw [Stores, first, word, Except.ok.inj whole]
  rw [stored.firstU8At (by decide) m.messageType.toNat_lt] at typed
  cases typed
  rw [UInt8.ofNat_toNat] at done
  refine ⟨m, parsed, stored, present_of_firstU8At code, ?_⟩
  split at done
  · rename_i error
    rw [bind_eq_ok] at done
    obtain ⟨word, ready, done⟩ := done
    split at done
    · cases done
    · rw [bind_eq_ok] at done
      obtain ⟨body, content, -⟩ := done
      exact .error error ready content
  · rename_i ordinary
    simp only [bind_eq_ok] at done
    obtain ⟨payload, content, words, written, done⟩ := done
    cases done
    refine .ordinary (by simpa using ordinary) written content ?_
    simp only [List.length_append, List.length_cons, List.length_nil, length_toBytes]

theorem covers_icmpv6 {m : Icmpv6Message}
    (typed : Stores fields .outer (.icmpv6 (.known .icmpv6Type)) 8 m.messageType.toNat)
    (code : fields.containsFieldScope (.icmpv6 (.known .icmpv6Code)) .outer) :
    fields.covers [PacketScope.outer.query (.icmpv6 (.known .icmpv6Type)),
      PacketScope.outer.query (.icmpv6 (.known .icmpv6Code))] := by
  simp only [FieldStore.covers, List.all_cons, List.all_nil, Bool.and_true, Bool.and_eq_true]
  constructor
  · change fields.containsFieldScope (.icmpv6 (.known .icmpv6Type)) .outer = true
    rw [containsFieldScope, typed]
    rfl
  · exact code

theorem covers_single {q : Query} (present : fields.containsFieldScope q.key.field q.key.scope) :
    fields.covers [q] := by
  simpa [FieldStore.covers] using present

/-- An error is written with the word of its type. -/
theorem covers_of_typeWord {m : Icmpv6Message} (error : isIcmpv6ErrorType m.messageType)
    (typed : Stores fields .outer (.icmpv6 (.known .icmpv6Type)) 8 m.messageType.toNat)
    (code : fields.containsFieldScope (.icmpv6 (.known .icmpv6Code)) .outer) {word : FieldValue}
    (ready : icmpv6TypeWord fields .outer m.messageType = .ok word) :
    fields.covers (icmpv6Queries m.messageType) := by
  obtain ⟨-, -, -, quiet, named⟩ := icmpv6_types m.messageType
  have echo : ¬ isEchoType m.messageType := by
    rw [quiet error]
    exact Bool.false_ne_true
  have present : ∀ {field : FieldRef}, fields.firstByFieldScope field .outer = some word →
      fields.containsFieldScope field .outer := by
    intro field first
    rw [containsFieldScope, first]
    rfl
  rw [icmpv6Queries, covers_append]
  refine ⟨covers_icmpv6 typed code, ?_⟩
  rw [if_neg echo]
  unfold icmpv6TypeWord at ready
  by_cases unused : hasIcmpv6UnusedField m.messageType
  · rw [if_pos unused] at ready ⊢
    split at ready
    · rename_i first
      cases ready
      exact covers_single (present first)
    · cases ready
  · rw [if_neg unused] at ready ⊢
    split at ready
    · rename_i first
      cases ready
      rcases named error (by simpa using unused) with mtu | pointer
      · rw [if_pos mtu] at first ⊢
        exact covers_single (present first)
      · have other : ¬ m.messageType = 2 := by
          rw [pointer]
          decide
        rw [if_neg other] at first ⊢
        rw [if_pos pointer]
        exact covers_single (present first)
    · cases ready

/-- An echo message that is whole is written with its two words. -/
theorem covers_of_echoWords {m : Icmpv6Message} (ordinary : isIcmpv6ErrorType m.messageType = false)
    (typed : Stores fields .outer (.icmpv6 (.known .icmpv6Type)) 8 m.messageType.toNat)
    (code : fields.containsFieldScope (.icmpv6 (.known .icmpv6Code)) .outer) {words : List UInt8}
    (written : echoWords fields .outer m.messageType = .ok words)
    (length : 4 + words.length = m.payloadOffset) :
    fields.covers (icmpv6Queries m.messageType) := by
  obtain ⟨unusedError, mtuError, pointerError, -, -⟩ := icmpv6_types m.messageType
  have silent : ∀ {named : Prop}, (named → isIcmpv6ErrorType m.messageType) → ¬ named := by
    intro named error holds
    rw [error holds] at ordinary
    cases ordinary
  rw [icmpv6Queries, covers_append]
  refine ⟨covers_icmpv6 typed code, ?_⟩
  by_cases echo : isEchoType m.messageType
  · have offset : m.payloadOffset = 8 := payloadOffset_eight (.inl echo)
    unfold echoWords at written
    split at written
    · rename_i both
      simp only [bind_eq_ok] at written
      obtain ⟨_, identifier, _, sequence, -⟩ := written
      rw [if_pos echo]
      simp only [FieldStore.covers, List.all_cons, List.all_nil, Bool.and_true, Bool.and_eq_true]
      exact ⟨present_of_firstU16At identifier, present_of_firstU16At sequence⟩
    · cases written
      rw [List.length_nil] at length
      omega
  · rw [if_neg echo, if_neg (silent unusedError), if_neg (silent mtuError),
      if_neg (silent pointerError)]
    rfl

theorem typed_of_reconstructIcmpv6 {inner : Result (List UInt8)} {upper : List UInt8}
    {computeChecksum : Bool}
    (done : reconstructIcmpv6 inner fields scope = .ok (upper, computeChecksum)) :
    fields.containsFieldScope (.icmpv6 (.known .icmpv6Type)) scope := by
  simp only [reconstructIcmpv6, bind_eq_ok] at done
  obtain ⟨_, typed, -⟩ := done
  exact present_of_firstU8At typed

/-- Appended to what was rebuilt, the suffix is what an ordinary message carries. -/
theorem covers_of_appended_icmpv6 {state : CompressionState} (gathered : Gathered p direction state)
    (elides : Elides state.fields sent)
    (carried : carryThroughSuffix p.bytes state = .ok (some suffix)) (icmpv6 : p.nextHeader = 58)
    (verdict : suffix ≠ [] → headerOnlyIcmpError sent = .ok false)
    (header : sent.covers (ipv6Queries .outer)) {inner : Result (List UInt8)} {upper : List UInt8}
    {computeChecksum : Bool}
    (made : reconstructIcmpv6 inner sent .outer = .ok (upper, computeChecksum))
    (length : 40 + upper.length + suffix.length = p.bytes.length) : Covers p sent := by
  obtain ⟨silent, offset, reached, -, rfl⟩ := carryThroughSuffix_some carried
  have faithful : Faithful p direction sent := elides.faithful gathered.read
  have quiet := elides.hasExplicitPayload.trans silent
  have present := typed_of_reconstructIcmpv6 made
  obtain ⟨m, parsed, typed, code, wrote⟩ := wrote_of_reconstructIcmpv6 faithful made
  have split := coveredLength_icmpv6 icmpv6 (elides.containsField_left rfl present) parsed reached
  subst split
  rw [drop_icmpv6 parsed] at verdict length
  have stored := faithful.header (packetForScope_outer p) header
  cases wrote with
  | error error ready content =>
    exfalso
    by_cases none : m.payload = []
    · unfold icmpv6ErrorBody at content
      split at content
      · rename_i embedded
        obtain ⟨value, -, read⟩ := faithful.present rfl embedded
        obtain ⟨m', e, -, parsed', -, carries⟩ := read.embedded
        cases parsed.symm.trans parsed'
        rw [none] at carries
        cases carries
      · rw [containsFieldScope, first_of_silent quiet (by simp [payloadFields])] at content
        cases content
    · have known := verdict none
      rw [headerOnly_icmpv6 quiet icmpv6 stored.nextHeader typed, error] at known
      cases known
  | ordinary ordinary written content size =>
    rw [sharedPayload_silent quiet (by simp [payloadFields])] at content
    cases content
    have inside : m.payloadOffset ≤ m.bytes.length := m.header
    have whole := p.length_payload
    rw [← Icmpv6Message.parse_eq_ok.mp parsed] at whole
    rw [m.payload_eq, List.length_drop] at length
    rw [List.length_nil] at size
    have covered := covers_of_echoWords ordinary typed code written (by omega)
    exact .icmpv6 icmpv6 parsed ordinary (covers_append.mpr ⟨header, covered⟩)

/-- An embedded packet that was rebuilt as it is has no payload, and its checksum holds unless it
    was sent. -/
theorem coversEmbedded_of_rebuilt (faithful : Faithful p direction sent)
    (quiet : sent.hasExplicitPayload = false) (icmpv6 : p.nextHeader = 58) {m : Icmpv6Message}
    (parsed : Icmpv6Message.parse p.payload = .ok m) (error : isIcmpv6ErrorType m.messageType)
    (carries : Ipv6Packet.parse m.payload = .ok e)
    (done : reconstructPacketAt 1 (reverseDirection direction) (injected sent m.payload) .embedded =
      .ok m.payload) : CoversEmbedded e sent := by
  have located := packetForScope_embedded icmpv6 parsed error carries
  have filled := faithful.injected icmpv6 parsed
  cases wrote_of_reconstructPacketAt done with
  | udp named made header length =>
    have udp : e.nextHeader = 17 := filled.nextHeader located header named
    obtain ⟨ports, coap, payload, written, content, size⟩ := covers_of_reconstructUdp made
    obtain ⟨value, -, read⟩ := filled.present rfl (covers_mem ports List.mem_cons_self)
    obtain ⟨u, datagram, -⟩ := read.udp located
    have headers : sent.covers (udpHeaders .embedded) := by
      rw [udpHeaders, ← covers_injected m.payload (by decide), covers_append]
      exact ⟨header, ports⟩
    rw [carriedCoap, if_neg (fun both => PacketScope.noConfusion both.1)] at written
    cases written
    rw [udpPayload, if_pos rfl, sharedPayload, firstByFieldScope_injected m.payload (by simp),
      first_of_silent quiet (by simp [payloadFields]), payload_injected_embedded quiet] at content
    cases content
    have same := Ipv6Packet.parse_eq_ok.mp carries
    have whole := e.length_payload
    rw [same, length, size, List.length_nil] at whole
    have eight : e.payload.length = 8 := by omega
    have empty : u.payload = [] := by
      have left := u.length_payload
      rw [UdpDatagram.parse_eq_ok.mp datagram, eight] at left
      exact List.length_eq_zero_iff.mp (by omega)
    rw [rebuilds_embedded faithful quiet icmpv6 parsed error carries udp datagram headers empty] at done
    have summed : e.recomputed sent .embedded = e.bytes := (Except.ok.inj done).trans same.symm
    refine ⟨udp, headers, eight, ?_⟩
    rw [Ipv6Packet.recomputed, checksumField, if_pos udp] at summed
    split at summed
    · rename_i sent
      exact .inl sent
    · exact .inr ((Ipv6Packet.resummed_eq_iff (hasChecksum_udp udp datagram)).mp summed)
  | icmpv6 named made header length =>
    obtain ⟨value, -, read⟩ := filled.present rfl (typed_of_reconstructIcmpv6 made)
    cases read.outer rfl

/-- Injected into what was rebuilt, the suffix is what an error carries. -/
theorem covers_of_injected_icmpv6 {state : CompressionState} (gathered : Gathered p direction state)
    (elides : Elides state.fields sent)
    (carried : carryThroughSuffix p.bytes state = .ok (some suffix)) (icmpv6 : p.nextHeader = 58)
    (verdict : headerOnlyIcmpError sent = .ok true)
    (valid : validateEmbeddedIpv6Suffix suffix = .ok ())
    (header : sent.covers (ipv6Queries .outer)) {upper : List UInt8} {computeChecksum : Bool}
    (made : reconstructIcmpv6 (reconstructPacketAt 1 (reverseDirection direction)
      (injected sent suffix) .embedded) (injected sent suffix) .outer =
        .ok (upper, computeChecksum)) : Covers p sent := by
  obtain ⟨silent, offset, reached, -, rfl⟩ := carryThroughSuffix_some carried
  have faithful : Faithful p direction sent := elides.faithful gathered.read
  have quiet := elides.hasExplicitPayload.trans silent
  have present := typed_of_reconstructIcmpv6 made
  rw [containsFieldScope_injected _ (by simp)] at present
  obtain ⟨value, -, read⟩ := faithful.present rfl present
  obtain ⟨m, structured, parsed, -⟩ := read.icmpv6
  have split := coveredLength_icmpv6 icmpv6 (elides.containsField_left rfl present) parsed reached
  subst split
  rw [drop_icmpv6 parsed] at valid made
  obtain ⟨m', parsed', typed, code, wrote⟩ :=
    wrote_of_reconstructIcmpv6 (faithful.injected icmpv6 parsed) made
  cases parsed.symm.trans parsed'
  have stored := faithful.header (packetForScope_outer p) header
  have own : Stores sent .outer (.icmpv6 (.known .icmpv6Type)) 8 m.messageType.toNat := by
    rwa [Stores, firstByFieldScope_injected _ (by simp)] at typed
  rw [headerOnly_icmpv6 quiet icmpv6 stored.nextHeader own] at verdict
  cases wrote with
  | error error ready content =>
    have covered := covers_of_typeWord error typed code ready
    rw [covers_injected m.payload (icmpv6Queries_own m.messageType)] at covered
    rw [validateEmbeddedIpv6Suffix, bind_eq_ok] at valid
    obtain ⟨e, carries, valid⟩ := valid
    refine .icmpv6Error icmpv6 parsed error (covers_append.mpr ⟨header, covered⟩) carries ?_ ?_
    · intro udp
      rw [if_pos udp, bind_eq_ok] at valid
      obtain ⟨u, datagram, -⟩ := valid
      exact ⟨u, datagram⟩
    · intro embedded
      have there : (injected sent m.payload).containsFieldScope (.ipv6 (.known .ipv6Version))
          .embedded = true := by
        rw [containsFieldScope_injected _ (by simp)]
        exact embedded
      rw [icmpv6ErrorBody, if_pos there, bind_eq_ok] at content
      obtain ⟨inner, done, content⟩ := content
      rw [payload_injected quiet] at content
      dsimp only at content
      rw [FieldValue.bytes_ofBits_ofBytes] at content
      split at content
      · cases content
      · rename_i same
        rw [← not_not.mp same] at done
        exact coversEmbedded_of_rebuilt faithful quiet icmpv6 parsed error carries done
  | ordinary ordinary _ _ _ =>
    rw [ordinary] at verdict
    cases verdict

/-- Where the rebuilt packet has the right length, no started header was incomplete. -/
theorem Covers.of_rebuilt {state : CompressionState} (gathered : Gathered p direction state)
    (elides : Elides state.fields sent)
    (carried : carryThroughSuffix p.bytes state = .ok (some suffix)) {rebuilt : List UInt8}
    (done : rebuildCarried direction sent suffix = .ok rebuilt)
    (length : rebuilt.length = p.bytes.length) : Covers p sent := by
  have faithful : Faithful p direction sent := elides.faithful gathered.read
  have located := packetForScope_outer p
  cases rejoined_of_rebuildCarried done with
  | appended verdict base size =>
    cases wrote_of_reconstructPacketAt base with
    | udp named made header long =>
      have udp : p.nextHeader = 17 := faithful.nextHeader located header named
      exact covers_of_rebuilt_udp gathered elides carried udp header made (by omega)
    | icmpv6 named made header long =>
      have icmpv6 : p.nextHeader = 58 := faithful.nextHeader located header named
      exact covers_of_appended_icmpv6 gathered elides carried icmpv6 verdict header made (by omega)
  | injected verdict valid base =>
    have kept : ∀ n, firstU8At (injected sent suffix) (.ipv6 (.known .ipv6NextHeader)) .outer = .ok n →
        firstU8At sent (.ipv6 (.known .ipv6NextHeader)) .outer = .ok n := by
      intro n named
      rwa [firstU8At, firstValueAt, firstByFieldScope_injected _ (by simp)] at named
    cases wrote_of_reconstructPacketAt base with
    | udp named made header long =>
      rw [covers_injected suffix (by decide)] at header
      have udp : p.nextHeader = 17 := faithful.nextHeader located header (kept 17 named)
      rw [faithful.headerOnly_udp udp (faithful.header located header).nextHeader] at verdict
      cases verdict
    | icmpv6 named made header long =>
      rw [covers_injected suffix (by decide)] at header
      have icmpv6 : p.nextHeader = 58 := faithful.nextHeader located header (kept 58 named)
      exact covers_of_injected_icmpv6 gathered elides carried icmpv6 verdict valid header made

end

end SchcCore
