import SchcCore.Packet.Exchange
import SchcCore.Compress.Selection
import SchcCore.Roundtrip.Extraction
import SchcCore.Decompress.Result

/- Compression from the other end. A packet with its endpoints exchanged, sent the other way, is
   read, matched and rebuilt alike, and the rules make candidates of one length of it. -/
namespace SchcCore
open Outcome Bytes BigEndian BitList OnesComplement FieldStore Least

/- Rebuilding. -/

theorem reverse_reverse (direction : Direction) :
    reverseDirection (reverseDirection direction) = direction := by
  cases direction <;> rfl

/-- The sum over a segment and its pseudo-header does not see the exchange. -/
theorem transportChecksum_exchanged {source destination upper : List UInt8}
    (first : source.length = 16) (second : destination.length = 16) (long : 4 ≤ upper.length)
    (nextHeader : UInt8) :
    transportChecksum destination source nextHeader (exchangePorts upper) =
      transportChecksum source destination nextHeader upper := by
  have third : (cut upper 0 2).length = 2 := length_cut (by omega)
  have fourth : (cut upper 2 4).length = 2 := length_cut long
  have words : wordSum (exchangePorts upper) = wordSum upper := by
    conv_rhs => rw [ports_split long]
    rw [exchangePorts, wordSum_append _ (by omega), wordSum_append _ (by omega),
      wordSum_append _ (by omega), wordSum_append _ (by omega)]
    omega
  have same : ∀ length : List UInt8, length.length = 4 →
      wordSum (destination ++ source ++ length ++ [0, 0, 0, nextHeader] ++ exchangePorts upper) =
        wordSum (source ++ destination ++ length ++ [0, 0, 0, nextHeader] ++ upper) := by
    intro length four
    simp only [List.append_assoc]
    rw [wordSum_append _ (by omega), wordSum_append _ (by omega), wordSum_append _ (by omega),
      wordSum_append _ (by simp), wordSum_append _ (by omega), wordSum_append _ (by omega),
      wordSum_append _ (by omega), wordSum_append _ (by simp), words]
    omega
  have summed := Checksum.finish_addBytes 0
  simp only [transportChecksum, Checksum.addBytes_addBytes, length_exchangePorts long]
  change Checksum.finish (Checksum.addBytes ⟨0 % 2 ^ 32, none⟩ _) =
    Checksum.finish (Checksum.addBytes ⟨0 % 2 ^ 32, none⟩ _)
  rw [summed, summed, same _ (by simp)]

theorem overwrite_exchangePorts {upper : List UInt8} (long : 4 ≤ upper.length) (new : List UInt8) :
    overwrite (exchangePorts upper) 6 new = exchangePorts (overwrite upper 6 new) := by
  have third : (cut upper 0 2).length = 2 := length_cut (by omega)
  have fourth : (cut upper 2 4).length = 2 := length_cut long
  have past : ∀ a b rest : List UInt8, a.length = 2 → b.length = 2 →
      overwrite (a ++ (b ++ rest)) 6 new = a ++ (b ++ overwrite rest 2 new) := by
    intro a b rest two two'
    simp [overwrite, List.take_append, List.drop_append, two, two', List.take_of_length_le,
      List.drop_of_length_le, Nat.add_comm]
  conv_rhs => rw [ports_split long, past _ _ _ third fourth, exchangePorts_joined _ third fourth]
  exact past _ _ _ fourth third

theorem withChecksum_exchanged {source destination upper filled : List UInt8} {compute : Bool}
    (first : source.length = 16) (second : destination.length = 16) (long : 4 ≤ upper.length)
    (done : withChecksum source destination 17 upper compute = .ok filled) :
    withChecksum destination source 17 (exchangePorts upper) compute = .ok (exchangePorts filled) ∧
      filled.length = upper.length := by
  cases compute with
  | false =>
    cases done
    exact ⟨rfl, rfl⟩
  | true =>
    simp only [withChecksum, ↓reduceIte, bind_eq_ok] at done ⊢
    obtain ⟨start, found, done⟩ := done
    obtain ⟨place, inside⟩ := checksumRange_ok found
    obtain rfl : start = 6 := place
    have found' : checksumRange 17 (exchangePorts upper) = .ok 6 := by
      rw [← found, checksumRange, checksumRange, length_exchangePorts long]
    rw [copyInto_eq (by simpa using inside)] at done
    cases done
    refine ⟨⟨6, found', ?_⟩, length_overwrite (by simpa using inside)⟩
    rw [copyInto_eq (by simpa [length_exchangePorts long] using inside),
      transportChecksum_exchanged first second long, overwrite_exchangePorts long]

theorem reconstructUdp_exchanged {direction : Direction} {fields : FieldStore} {scope : PacketScope}
    {upper : List UInt8} {compute : Bool}
    (done : reconstructUdp direction fields scope = .ok (upper, compute)) :
    4 ≤ upper.length ∧ reconstructUdp (reverseDirection direction) fields scope =
      .ok (exchangePorts upper, compute) := by
  simp only [reconstructUdp, bind_eq_ok] at done ⊢
  obtain ⟨coap, carried, devPort, dev, appPort, app, payload, paid, length, counted, ⟨checksum, own⟩,
    summed, done⟩ := done
  cases done
  constructor
  · simp
    omega
  · refine ⟨coap, carried, devPort, dev, appPort, app, payload, paid, length, counted,
      (checksum, own), summed, ?_⟩
    cases direction
    · simp only [reverseDirection, List.append_assoc]
      rw [exchangePorts_joined _ (length_toBytes 2 _) (length_toBytes 2 _)]
    · simp only [reverseDirection, List.append_assoc]
      rw [exchangePorts_joined _ (length_toBytes 2 _) (length_toBytes 2 _)]

theorem endpointAddresses_exchanged {direction : Direction} {fields : FieldStore}
    {scope : PacketScope} {source destination : List UInt8}
    (made : endpointAddresses direction fields scope = .ok (source, destination)) :
    endpointAddresses (reverseDirection direction) fields scope = .ok (destination, source) := by
  simp only [endpointAddresses, bind_eq_ok] at made ⊢
  obtain ⟨device, dev, application, app, made⟩ := made
  refine ⟨device, dev, application, app, ?_⟩
  cases direction <;> cases made <;> rfl

theorem reconstructIpv6WithUpper_exchanged {direction : Direction} {fields : FieldStore}
    {scope : PacketScope} {upper packet : List UInt8} {compute : Bool} (long : 4 ≤ upper.length)
    (done : reconstructIpv6WithUpper direction fields scope 17 upper compute = .ok packet) :
    reconstructIpv6WithUpper (reverseDirection direction) fields scope 17 (exchangePorts upper)
      compute = .ok (exchange packet) := by
  simp only [reconstructIpv6WithUpper, bind_eq_ok] at done ⊢
  obtain ⟨version, versioned, trafficClass, classed, flowLabel, labelled, hopLimit, limited, length,
    counted, ⟨source, destination⟩, addressed, done⟩ := done
  obtain ⟨first, second⟩ := length_endpointAddresses addressed
  dsimp only at done
  rw [reject_eq_ok (invalidResidue_ne_ok _)] at done
  obtain ⟨inside, done⟩ := done
  rw [bind_eq_ok] at done
  obtain ⟨filled, written, done⟩ := done
  cases done
  obtain ⟨written', size⟩ := withChecksum_exchanged first second long written
  refine ⟨version, versioned, trafficClass, classed, flowLabel, labelled, hopLimit, limited, length,
    ?_, (destination, source), endpointAddresses_exchanged addressed, ?_⟩
  · rwa [length_exchangePorts long]
  · rw [if_neg inside]
    simp only [written', ok_bind]
    have front : (toBytes 4 ((version <<< 28) ||| (trafficClass <<< 20) ||| flowLabel) ++
        toBytes 2 length ++ [17, UInt8.ofNat hopLimit]).length = 8 := by simp
    have joined := exchange_joined front first second (show 4 ≤ filled.length by omega)
    simp only [List.append_assoc] at joined ⊢
    rw [joined]

/-- Without an ICMPv6 type what is rebuilt is a UDP packet, and alike from the other end. -/
theorem reconstructPacket_exchanged {direction : Direction} {fields : FieldStore}
    {packet : List UInt8}
    (untyped : fields.firstByFieldScope (.icmpv6 (.known .icmpv6Type)) .outer = none)
    (done : reconstructPacket direction fields = .ok packet) :
    ∃ q : UdpPacket, q.ipv6.bytes = packet ∧
      reconstructPacket (reverseDirection direction) fields = .ok q.exchanged.ipv6.bytes := by
  obtain ⟨⟨⟨p, parsed⟩, carries⟩, -⟩ := reconstructPacket_wellFormed done
  have same := Ipv6Packet.parse_eq_ok.mp parsed
  simp only [reconstructPacket, bind_eq_ok] at done
  obtain ⟨built, made, -, -, done⟩ := done
  cases done
  rw [packetDepth, reconstructPacketAt, bind_eq_ok] at made
  obtain ⟨nextHeader, headed, made⟩ := made
  by_cases udp : nextHeader = 17
  · rw [if_pos udp, bind_eq_ok] at made
    obtain ⟨⟨upper, compute⟩, wrote, made⟩ := made
    obtain ⟨long, wrote'⟩ := reconstructUdp_exchanged wrote
    obtain ⟨_, _, _, -, -, -, sixth⟩ := reconstructIpv6WithUpper_headed made
    have seventeen : p.nextHeader = 17 := by
      rw [Ipv6Packet.nextHeader_eq, same]
      exact sixth.nextHeader
    obtain ⟨u, parsedUdp⟩ : ∃ u, UdpDatagram.parse p.payload = .ok u := by
      rcases carries p parsed with ⟨-, carried⟩ | icmp
      · exact carried
      · rw [seventeen] at icmp
        cases icmp
    refine ⟨⟨p, u, seventeen, UdpDatagram.parse_eq_ok.mp parsedUdp⟩, same, ?_⟩
    refine reconstructPacket_of_at ?_ fun _ => ⟨_, UdpPacket.parsed _⟩
    rw [packetDepth, reconstructPacketAt, headed, ok_bind, if_pos udp, wrote', ok_bind]
    have made' := reconstructIpv6WithUpper_exchanged long made
    rw [← same] at made'
    exact made'
  · rw [if_neg udp] at made
    by_cases icmp : nextHeader = 58
    · rw [if_pos icmp, bind_eq_ok] at made
      obtain ⟨_, wrote, -⟩ := made
      simp only [reconstructIcmpv6, bind_eq_ok] at wrote
      obtain ⟨messageType, typed, -⟩ := wrote
      simp only [firstU8At, firstValueAt, untyped] at typed
      cases typed
    · rw [if_neg icmp] at made
      cases made

/- Running entries. -/

/-- A store of ordinary fields of the outer packet. -/
structure Plain (state : CompressionState) : Prop where
  scope : state.scope = .outer
  stored : ∀ entry ∈ state.fields, entry.1.field.isOrdinary ∧ entry.1.scope = .outer

theorem Plain.initial : Plain .initial := by
  constructor
  · rfl
  · intro entry member
    cases member

theorem Plain.untyped {state : CompressionState} (plain : Plain state) :
    state.fields.firstByFieldScope (.icmpv6 (.known .icmpv6Type)) .outer = none := by
  rw [firstByFieldScope, List.findSome?_eq_none_iff]
  intro entry member
  refine if_neg ?_
  rintro ⟨typed, -⟩
  have ordinary := (plain.stored entry member).1
  rw [typed] at ordinary
  cases ordinary

theorem Plain.flat {state : CompressionState} (plain : Plain state) : state.fields.Flat :=
  fun entry member _ _ => (plain.stored entry member).2

theorem Plain.scopeForField {state : CompressionState} (plain : Plain state) (field : FieldRef) :
    scopeForField state field = .ok .outer := by
  have outer : state.isOuterError = false := by
    rw [CompressionState.isOuterError, plain.untyped]
  rw [SchcCore.scopeForField, plain.scope, if_neg (by decide), outer, if_neg (by decide)]

namespace UdpPacket
variable {p : UdpPacket} {direction : Direction}

theorem matchEntry_exchanged {branch : Branch} (ordinary : branch.parse.field.isOrdinary)
    (bitLen : Option Nat) (state : CompressionState) :
    matchEntry p.exchanged.ipv6.bytes (reverseDirection direction) branch bitLen .outer state =
      matchEntry p.ipv6.bytes direction branch bitLen .outer state := by
  simp only [matchEntry, extractMatchingCoapOption, outerCoap_exchanged,
    extractField_exchanged p ordinary]

theorem optionOrdinal_exchanged (parse : ParseStep) (scope : PacketScope) (matched : MatchResult) :
    optionOrdinal p.exchanged.ipv6.bytes parse scope matched =
      optionOrdinal p.ipv6.bytes parse scope matched := by
  simp only [optionOrdinal, extractCoapOptionOrdinal, outerCoap_exchanged]

theorem traverseBranch_exchanged {branch : Branch} (ordinary : branch.parse.field.isOrdinary)
    {state : CompressionState} (plain : Plain state) :
    traverseBranch p.exchanged.ipv6.bytes (reverseDirection direction) branch state =
      traverseBranch p.ipv6.bytes direction branch state := by
  simp only [traverseBranch, plain.scopeForField, ok_bind, matchEntry_exchanged ordinary,
    optionOrdinal_exchanged]

end UdpPacket

/-- Entries that say nothing of a direction, of ordinary fields. -/
def FieldRule.IsSymmetric (entry : FieldRule) : Prop :=
  entry.direction = .bidirectional ∧ entry.field.isOrdinary

instance (entry : FieldRule) : Decidable entry.IsSymmetric :=
  inferInstanceAs (Decidable (entry.direction = .bidirectional ∧ entry.field.isOrdinary))

theorem advance_symmetric {packet : List UInt8} {direction : Direction} {entry : FieldRule}
    (symmetric : entry.IsSymmetric) (state : CompressionState) :
    advance packet direction entry state = traverseBranch packet direction entry.branch state := by
  have active : ¬ ¬ entry.direction.accepts direction := by
    simp [symmetric.1, DirectionSelector.accepts]
  rw [advance, if_neg active]

theorem Plain.advance {packet : List UInt8} {direction : Direction} {entry : FieldRule}
    (symmetric : entry.IsSymmetric) {state next : CompressionState} (plain : Plain state)
    (advanced : advance packet direction entry state = .ok (some next)) : Plain next := by
  rw [advance_symmetric symmetric] at advanced
  rcases traverseBranch_some.mp advanced with ⟨-, rfl⟩ | ⟨-, bitLen, value, matched, taken⟩
  · exact plain
  · have placed := taken.scope
    rw [plain.scopeForField] at placed
    have outer : next.scope = .outer := (Except.ok.inj placed).symm
    constructor
    · exact outer
    · intro stored member
      rw [taken.fields, FieldStore.insert, List.mem_append, List.mem_singleton] at member
      rcases member with old | rfl
      · exact plain.stored stored old
      · exact ⟨symmetric.2, outer⟩

/-- A run over symmetric entries goes alike from both ends, and leaves a plain state. -/
theorem runEntries_exchanged {p : UdpPacket} {direction : Direction} {entries : List FieldRule}
    (symmetric : ∀ entry ∈ entries, entry.IsSymmetric) {state last : CompressionState}
    (plain : Plain state)
    (ran : runEntries p.ipv6.bytes direction entries state = .ok (some last)) :
    runEntries p.exchanged.ipv6.bytes (reverseDirection direction) entries state = .ok (some last) ∧
      Plain last := by
  induction entries generalizing state with
  | nil =>
    cases ran
    exact ⟨rfl, plain⟩
  | cons entry entries ih =>
    obtain ⟨next, advanced, rest⟩ := runEntries_cons.mp ran
    have here := symmetric entry List.mem_cons_self
    obtain ⟨rest', plain'⟩ := ih (fun other later => symmetric other (List.mem_cons_of_mem _ later))
      (plain.advance here advanced) rest
    refine ⟨runEntries_cons.mpr ⟨next, ?_, rest'⟩, plain'⟩
    rw [advance_symmetric here] at advanced ⊢
    rwa [UdpPacket.traverseBranch_exchanged here.2 plain]

/- Leaves. -/

/-- A candidate of the packet and one of its exchange, as a rule makes them. -/
structure Corresponds (rule : Rule) (a b : CompressedDatagram) : Prop where
  sent : a.ruleId = rule.id
  ruleId : b.ruleId = a.ruleId
  bitLen : b.bitLen = a.bitLen
  bytes : rule.nature = .compression ∨ rule.nature = .management →
    (∃ entry ∈ rule.fields, entry.field = .udp (.known .udpDevPort)) → b = a

namespace UdpPacket
variable {p : UdpPacket} {direction : Direction} {state : CompressionState}

theorem coveredLength_exchanged (p : UdpPacket) (state : CompressionState) :
    coveredLength p.exchanged.ipv6 state = coveredLength p.ipv6 state := by
  have payload : p.exchanged.udp.payload = p.udp.payload := p.udp.payload_exchanged
  have other : ¬ (17 : UInt8) = 58 := by decide
  simp only [coveredLength, p.isUdp, p.exchanged.isUdp, parsed, ok_bind, coapPrefixLength, payload,
    other, false_and, ↓reduceIte]

/-- A rule that covers the device port covers both ports. -/
theorem coveredLength_ports {offset : Nat}
    (port : state.fields.containsField (.udp (.known .udpDevPort)))
    (covered : coveredLength p.ipv6 state = .ok (some offset)) : 44 ≤ offset := by
  rw [coveredLength, if_pos ⟨p.isUdp, port⟩] at covered
  split at covered
  · simp only [bind_eq_ok] at covered
    obtain ⟨u, -, message, -, covered⟩ := covered
    split at covered
    · cases covered
    · rw [bind_eq_ok] at covered
      obtain ⟨length, -, covered⟩ := covered
      cases covered
      omega
  · cases covered
    decide

/-- Suffixes of one length, and the same one where both ports are covered. -/
structure SameSuffix (state : CompressionState) (suffix other : List UInt8) : Prop where
  length : other.length = suffix.length
  ports : state.fields.containsField (.udp (.known .udpDevPort)) → other = suffix

theorem carryThroughSuffix_exchanged {suffix : List UInt8}
    (carried : carryThroughSuffix p.ipv6.bytes state = .ok (some suffix)) :
    ∃ other, carryThroughSuffix p.exchanged.ipv6.bytes state = .ok (some other) ∧
      SameSuffix state suffix other := by
  have long := p.long
  have size : p.exchanged.ipv6.bytes.length = p.ipv6.bytes.length := length_exchange long
  unfold carryThroughSuffix at carried ⊢
  by_cases payload : state.fields.hasExplicitPayload
  · rw [if_pos payload] at carried
    cases carried
  · rw [if_neg payload, Ipv6Packet.parse_bytes, ok_bind, bind_eq_ok] at carried
    obtain ⟨covered, found, carried⟩ := carried
    rw [if_neg payload, Ipv6Packet.parse_bytes, ok_bind, coveredLength_exchanged, found, ok_bind]
    cases covered with
    | none => cases carried
    | some offset =>
      dsimp only at carried ⊢
      by_cases beyond : offset > p.ipv6.bytes.length
      · rw [dif_pos beyond] at carried
        cases carried
      · rw [dif_neg beyond] at carried
        cases carried
        refine ⟨p.exchanged.ipv6.bytes.drop offset, ?_, ?_, ?_⟩
        · rw [dif_neg (by omega)]
        · change (List.drop _ _).length = (List.drop _ _).length
          rw [List.length_drop, List.length_drop, size]
        · intro port
          have past := coveredLength_ports port found
          obtain ⟨-, -, -, -, -, rest⟩ := (exists_pieces long).exchanged.cuts
          change (exchange p.ipv6.bytes).drop offset = p.ipv6.bytes.drop offset
          rw [show offset = 44 + (offset - 44) by omega, ← List.drop_drop, ← List.drop_drop, rest]

theorem leafSuffix_exchanged (plain : Plain state) {suffix : List UInt8}
    (found : leafSuffix p.ipv6.bytes direction state = .ok (some suffix)) :
    ∃ other, leafSuffix p.exchanged.ipv6.bytes (reverseDirection direction) state =
      .ok (some other) ∧ SameSuffix state suffix other := by
  unfold leafSuffix at found ⊢
  cases built : reconstructPacket direction state.fields with
  | ok bytes =>
    rw [built] at found
    obtain ⟨q, same, built'⟩ := reconstructPacket_exchanged plain.untyped built
    rw [built']
    dsimp only at found ⊢
    by_cases whole : bytes = p.ipv6.bytes
    · rw [if_pos whole] at found
      cases found
      have whole' : q.exchanged.ipv6.bytes = p.exchanged.ipv6.bytes :=
        congrArg exchange (same.trans whole)
      exact ⟨[], if_pos whole', rfl, fun _ => rfl⟩
    · rw [if_neg whole] at found
      have part : ¬ q.exchanged.ipv6.bytes = p.exchanged.ipv6.bytes := by
        intro whole'
        have back := congrArg exchange whole'
        change exchange (exchange _) = exchange (exchange _) at back
        rw [exchange_exchange q.long, exchange_exchange p.long] at back
        exact whole (same.symm.trans back)
      rw [if_neg part]
      exact carryThroughSuffix_exchanged found
  | error halt =>
    rw [built] at found
    cases halt with
    | panic site => cases found
    | fail error =>
      dsimp only at found
      rcases safe_cases (safe_reconstructPacket (nestsErrors_of_flat plain.flat)
        (reverseDirection direction)) with ⟨bytes, built'⟩ | ⟨error', failed⟩
      · obtain ⟨q, -, back⟩ := reconstructPacket_exchanged plain.untyped built'
        rw [reverse_reverse, built] at back
        cases back
      · rw [failed]
        exact carryThroughSuffix_exchanged found

theorem leafCandidate_exchanged {rule : Rule} (fits : rule.id.Fits) (plain : Plain state)
    (port : (∃ entry ∈ rule.fields, entry.field = .udp (.known .udpDevPort)) →
      state.fields.containsField (.udp (.known .udpDevPort)))
    {k : Nat} {datagram : CompressedDatagram}
    (made : leafCandidate p.ipv6.bytes direction (some rule) k rule.id state =
      .ok (some ⟨k, datagram⟩)) :
    ∃ other, leafCandidate p.exchanged.ipv6.bytes (reverseDirection direction) (some rule) k rule.id
      state = .ok (some ⟨k, other⟩) ∧ Corresponds rule datagram other := by
  have size : p.exchanged.ipv6.bytes.length = p.ipv6.bytes.length := length_exchange p.long
  simp only [leafCandidate_iff] at made ⊢
  rcases made with ⟨whole, made⟩ | ⟨codes, filled, suffix, found, made⟩
  · obtain ⟨w, written, bits⟩ := noCompressionCandidate_ok fits k p.ipv6.bytes
    obtain ⟨w', written', bits'⟩ := noCompressionCandidate_ok fits k p.exchanged.ipv6.bytes
    rw [written] at made
    cases made
    refine ⟨w'.datagram rule.id, .inl ⟨whole, written'⟩, rfl, rfl, ?_, ?_⟩
    · have lengths : w'.bits.length = w.bits.length := by
        rw [bits, bits', List.length_append, List.length_append, length_ofBytes, length_ofBytes, size]
      rwa [BitWriter.length_bits, BitWriter.length_bits] at lengths
    · rintro codes ⟨entry, member, -⟩
      rcases whole with plain | ⟨empty, -⟩
      · rcases codes with codes | codes <;> cases plain.symm.trans codes
      · rw [empty] at member
        cases member
  · obtain ⟨other, found', same⟩ := leafSuffix_exchanged plain found
    obtain ⟨w, written, bits⟩ := compressedCandidate_ok fits k state.residue suffix
    obtain ⟨w', written', bits'⟩ := compressedCandidate_ok fits k state.residue other
    rw [written] at made
    cases made
    refine ⟨w'.datagram rule.id, .inr ⟨codes, filled, other, found', written'⟩, rfl, rfl, ?_, ?_⟩
    · have lengths : w'.bits.length = w.bits.length := by
        rw [bits, bits']
        simp only [List.length_append, length_ofBytes, same.length]
      rwa [BitWriter.length_bits, BitWriter.length_bits] at lengths
    · intro _ ported
      rw [same.ports (port ported), written] at written'
      exact (congrArg Candidate.datagram (Except.ok.inj written')).symm

end UdpPacket

/- Selection. -/

theorem FieldRule.IsSymmetric.of_label {a b : FieldRule} (same : a.label = b.label)
    (symmetric : a.IsSymmetric) : b.IsSymmetric := by
  have direction := congrArg FieldRule.direction same
  have field := congrArg FieldRule.field same
  exact ⟨direction ▸ symmetric.1, field ▸ symmetric.2⟩

theorem label_lent (rules : List Rule) {rule : Rule} {label : FieldRule} :
    (∃ entry ∈ rule.lent rules, entry.label = label) ↔ ∃ entry ∈ rule.fields, entry.label = label := by
  rw [← List.mem_map, ← List.mem_map, Rule.map_label_lent]

theorem symmetric_lent {rules : List Rule} {rule : Rule}
    (symmetric : ∀ entry ∈ rule.fields, entry.IsSymmetric) :
    ∀ entry ∈ rule.lent rules, entry.IsSymmetric := by
  intro entry member
  obtain ⟨own, inside, same⟩ := (label_lent rules).mp ⟨entry, member, rfl⟩
  exact (symmetric own inside).of_label same

/-- A symmetric entry for a field leaves the field in the store. -/
theorem containsField_of_run {packet : List UInt8} {direction : Direction} {rules : List Rule}
    {rule : Rule} (symmetric : ∀ entry ∈ rule.fields, entry.IsSymmetric) {last : CompressionState}
    (ran : runEntries packet direction (rule.lent rules) .initial = .ok (some last))
    {field : FieldRef} (present : ∃ entry ∈ rule.fields, entry.field = field)
    (real : field ≠ .syntheticCoapMarker) : last.fields.containsField field := by
  obtain ⟨entry, member, rfl⟩ := present
  obtain ⟨own, inside, same⟩ := (label_lent rules).mpr ⟨entry, member, rfl⟩
  have field : own.field = entry.field := (congrArg FieldRule.field same :)
  have stores : own.stores direction := by
    simp [FieldRule.stores, (symmetric_lent symmetric own inside).1, DirectionSelector.accepts,
      field, real]
  have kept : (own.field, own.fieldPosition, own.entryIndex) ∈ last.fields.map
      (fun stored => (stored.1.field, stored.1.fieldPosition, stored.1.entryIndex)) := by
    rw [fields_of_run ran]
    exact List.mem_append_right _ (List.mem_map_of_mem (List.mem_filter.mpr ⟨inside, stores⟩))
  obtain ⟨stored, listed, key⟩ := List.mem_map.mp kept
  rw [containsField, List.any_eq_true]
  exact ⟨stored, listed, decide_eq_true ((congrArg Prod.fst key).trans field)⟩

namespace Compressor

theorem Offered.exchanged {c : Compressor} {p : UdpPacket} {direction : Direction}
    (fit : ∀ rule ∈ c.context.rules.rules, rule.id.Fits)
    (symmetric : ∀ rule ∈ c.context.rules.rules, ∀ entry ∈ rule.fields, entry.IsSymmetric)
    {k : Nat} {a : CompressedDatagram} (offered : c.Offered p.ipv6.bytes direction k a) :
    ∃ rule b, c.context.rules.rules[k]? = some rule ∧
      c.Offered p.exchanged.ipv6.bytes (reverseDirection direction) k b ∧ Corresponds rule a b := by
  obtain ⟨rule, state, stands, ran, made⟩ := offered
  have member := List.mem_of_getElem? stands.placed
  obtain ⟨ran', plain⟩ :=
    runEntries_exchanged (symmetric_lent (symmetric rule member)) .initial ran
  obtain ⟨b, made', corresponds⟩ := UdpPacket.leafCandidate_exchanged (fit rule member) plain
    (fun present => containsField_of_run (symmetric rule member) ran present nofun) made
  exact ⟨rule, b, stands.placed, ⟨rule, state, stands, ran', made'⟩, corresponds⟩

/-- Where rule `k` offers a candidate of the packet it offers one of the exchanged packet, and
    the costs agree. -/
theorem LeastOffer.exchanged {c : Compressor} {p : UdpPacket} {direction : Direction}
    (fit : ∀ rule ∈ c.context.rules.rules, rule.id.Fits)
    (symmetric : ∀ rule ∈ c.context.rules.rules, ∀ entry ∈ rule.fields, entry.IsSymmetric)
    {k : Nat} {a : CompressedDatagram}
    (least : LeastOffer CompressedDatagram.bitLen (c.Offered p.ipv6.bytes direction) k a) :
    ∃ rule b, c.context.rules.rules[k]? = some rule ∧ Corresponds rule a b ∧
      LeastOffer CompressedDatagram.bitLen
        (c.Offered p.exchanged.ipv6.bytes (reverseDirection direction)) k b := by
  obtain ⟨rule, b, placed, offered, corresponds⟩ := least.offered.exchanged fit symmetric
  refine ⟨rule, b, placed, corresponds, least.transport ?_ offered corresponds.bitLen⟩
  intro k b offered
  obtain ⟨_, a, -, back, same⟩ := offered.exchanged fit symmetric
  rw [UdpPacket.exchanged_exchanged, reverse_reverse] at back
  exact ⟨a, back, same.bitLen.symm ▸ rfl⟩

end Compressor

/-- The outcomes of compressing a packet and, the other way, its exchange. -/
inductive Symmetric (ctx : RuleContext) :
    Result CompressedDatagram → Result CompressedDatagram → Prop
  | failed {e e'} : Symmetric ctx (fail e) (fail e')
  | carried {a b : CompressedDatagram} : b.ruleId = a.ruleId → b.bitLen = a.bitLen →
      (∀ rule ∈ ctx.rules.rules, rule.id = a.ruleId →
        rule.nature = .compression ∨ rule.nature = .management →
        (∃ entry ∈ rule.fields, entry.field = .udp (.known .udpDevPort)) → b.bytes = a.bytes) →
      Symmetric ctx (.ok a) (.ok b)

/-- With entries for both directions, of IPv6, UDP and CoAP fields, both ends compress alike. -/
theorem compression_symmetric {ctx : RuleContext} (loaded : ctx.Loaded)
    (symmetric : ∀ rule ∈ ctx.rules.rules, ∀ entry ∈ rule.fields, entry.IsSymmetric)
    {c : Compressor} (made : Compressor.new ctx = .ok c) {packet : List UInt8} {p : Ipv6Packet}
    (parsed : Ipv6Packet.parse packet = .ok p) (udp : p.nextHeader = 17) {u : UdpDatagram}
    (carried : UdpDatagram.parse p.payload = .ok u) (direction : Direction) :
    Symmetric ctx (c.compress direction packet)
      (c.compress (reverseDirection direction) (exchange packet)) := by
  have valid := loaded.valid
  have context := (Compressor.new_built made).1
  let q : UdpPacket := ⟨p, u, udp, UdpDatagram.parse_eq_ok.mp carried⟩
  obtain rfl : q.ipv6.bytes = packet := Ipv6Packet.parse_eq_ok.mp parsed
  have fit : ∀ rule ∈ c.context.rules.rules, rule.id.Fits := by
    rw [context]
    exact fun rule member => (valid.rules rule member).id
  have plain : ∀ rule ∈ c.context.rules.rules, ∀ entry ∈ rule.fields, entry.IsSymmetric := by
    rw [context]
    exact symmetric
  have there := Ipv6Packet.parse_bytes q.exchanged.ipv6
  by_cases some : ∃ k a, c.Offered q.ipv6.bytes direction k a
  · obtain ⟨k, a, offered⟩ := some
    obtain ⟨k, a, least⟩ := exists_leastOffer CompressedDatagram.bitLen offered
    obtain ⟨rule, b, placed, corresponds, least'⟩ :=
      Compressor.LeastOffer.exchanged fit plain least
    have here := (Compressor.compress_least valid made parsed).1 k a least
    have other := (Compressor.compress_least valid made there).1 k b least'
    rw [here, show c.compress _ (exchange q.ipv6.bytes) = .ok b from other]
    refine .carried corresponds.ruleId corresponds.bitLen ?_
    intro chosen listed same codes port
    obtain ⟨j, inside, there⟩ := List.getElem_of_mem listed
    rw [context] at placed
    have twin : chosen = rule := by
      have position : j = k := valid.ruleId_unique (List.getElem?_eq_some_iff.mpr ⟨inside, there⟩)
        placed (same.trans corresponds.sent)
      subst position
      exact there.symm.trans (List.getElem?_eq_some_iff.mp placed).2
    subst twin
    rw [corresponds.bytes codes port]
  · obtain ⟨error, failed⟩ := (Compressor.compress_least valid made parsed).2
      fun k a offered => some ⟨k, a, offered⟩
    obtain ⟨error', failed'⟩ := (Compressor.compress_least valid made there).2 fun k b offered => by
      obtain ⟨_, a, -, back, -⟩ := offered.exchanged fit plain
      rw [UdpPacket.exchanged_exchanged, reverse_reverse] at back
      exact some ⟨k, a, back⟩
    rw [failed, show c.compress _ (exchange q.ipv6.bytes) = fail error' from failed']
    exact .failed

theorem compression_symmetric_at_empty_udp :
    ∃ c, Compressor.new udpContext = .ok c ∧
      c.compress .down emptyUdpPacket = .ok ⟨[2], 8, ⟨2, 8⟩⟩ ∧
      c.compress .up (exchange emptyUdpPacket) = .ok ⟨[2], 8, ⟨2, 8⟩⟩ ∧
      Symmetric udpContext (c.compress .down emptyUdpPacket)
        (c.compress .up (exchange emptyUdpPacket)) := by
  obtain ⟨c, made⟩ := Compressor.new_total udpContext
  have done : (Compressor.new udpContext >>= fun c => c.compress .down emptyUdpPacket) =
      .ok ⟨[2], 8, ⟨2, 8⟩⟩ := by decide +kernel
  have exchanged : (Compressor.new udpContext >>= fun c =>
      c.compress .up (exchange emptyUdpPacket)) = .ok ⟨[2], 8, ⟨2, 8⟩⟩ := by decide +kernel
  rw [made] at done exchanged
  let p : Ipv6Packet := ⟨emptyUdpPacket, by decide, by decide, by decide⟩
  let u : UdpDatagram := ⟨emptyUdpPacket.drop 40, by decide, by decide⟩
  refine ⟨c, made, done, exchanged, ?_⟩
  have carried : UdpDatagram.parse p.payload = .ok u := UdpDatagram.parse_eq_ok.mpr rfl
  exact compression_symmetric udpContext_loaded (by decide) made (Ipv6Packet.parse_bytes p) rfl
    carried .down

end SchcCore
