import SchcCore.Decompress.Framing
import SchcCore.Roundtrip.Decoded
import SchcCore.Roundtrip.Exact
import SchcCore.Roundtrip.Rebuilt

/- What the receiver makes of a compressed datagram: the packet, when no header that was started is
   left incomplete and the checksums that are left to be computed hold. -/
namespace SchcCore
open Outcome Bytes BitList FieldStore

/- Reading a datagram back. -/

theorem validatePadding_empty {reader : BitReader} (nothing : reader.remaining = 0) :
    validatePadding reader = .ok ((), reader) := by
  unfold validatePadding
  change (if reader.remaining ≥ 8 then _ else _ : BitReader.Read Unit) reader = _
  rw [nothing, if_neg (by decide)]
  rfl

/-- Whole bytes behind the residue are the suffix, and nothing is none. -/
theorem readSuffix_carried (compressed : List UInt8) {fields : FieldStore} {reader : BitReader}
    {suffix : List UInt8} (rest : reader.unread = ofBytes suffix)
    (silent : suffix ≠ [] → fields.hasExplicitPayload = false) :
    ∃ reader', readSuffix compressed fields reader =
      .ok (if suffix = [] then none else some suffix, reader') := by
  have remaining : reader.remaining = 8 * suffix.length := by
    rw [← BitReader.length_unread, rest, length_ofBytes]
  unfold readSuffix
  change ∃ reader', (if reader.remaining ≥ 8 then _ else _ :
    BitReader.Read (Option (List UInt8))) reader = _
  by_cases nothing : suffix = []
  · subst nothing
    have none : reader.remaining = 0 := remaining
    rw [if_neg (by omega), if_pos rfl, Stream.bind_run, validatePadding_empty none, ok_bind]
    exact ⟨reader, rfl⟩
  · have long : 8 * suffix.length ≥ 8 := by
      have := List.length_pos_iff.mpr nothing
      omega
    have bytes : reader.unread = ofBytes suffix ++ [] := by rw [rest, List.append_nil]
    rw [remaining, if_pos long, if_neg (by simp [silent nothing]), if_neg (by omega), if_neg nothing,
      Stream.bind_run, BitReader.readBytesPadded_bytes bytes, ok_bind]
    exact ⟨_, rfl⟩

/- What a datagram of a rule with entries holds. -/

theorem leafSuffix_some {packet : List UInt8} {direction : Direction} {state : CompressionState}
    {suffix : List UInt8} (found : leafSuffix packet direction state = .ok (some suffix)) :
    (reconstructPacket direction state.fields = .ok packet ∧ suffix = []) ∨
      (reconstructPacket direction state.fields ≠ .ok packet ∧
        carryThroughSuffix packet state = .ok (some suffix)) := by
  unfold leafSuffix at found
  split at found
  · cases found
  · rename_i failed
    refine .inr ⟨?_, found⟩
    rw [failed]
    intro same
    cases same
  · rename_i bytes rebuilt
    split at found
    · rename_i same
      cases found
      exact .inl ⟨same ▸ rebuilt, rfl⟩
    · rename_i other
      refine .inr ⟨?_, found⟩
      rw [rebuilt]
      exact fun same => other (Except.ok.inj same)

/-- The rule with entries that a packet was compressed by, numbered as the receiver numbers it, and
    what the traversal held where the rule ends. -/
structure Rule.Compresses (rule : Rule) (ctx : RuleContext) (direction : Direction) (p : Ipv6Packet)
    (state : CompressionState) (datagram : CompressedDatagram) : Prop where
  member : rule ∈ ctx.rules.rules
  codes : rule.nature = .compression ∨ rule.nature = .management
  entries : rule.fields ≠ []
  alike : rule.NumberedAlike ctx.rules.rules direction
  selected : rule.id = datagram.ruleId
  done : ∃ c, Compressor.new ctx = .ok c ∧ c.compress direction p.bytes = .ok datagram ∧
    c.ReachesEnd p.bytes direction rule state

section
variable {ctx : RuleContext} {rule : Rule} {direction : Direction} {p : Ipv6Packet}
  {state : CompressionState} {datagram : CompressedDatagram}

theorem Rule.Compresses.ran (compresses : rule.Compresses ctx direction p state datagram)
    (loaded : ctx.Loaded) :
    runEntries p.bytes direction rule.fields .initial = .ok (some state) := by
  obtain ⟨c, made, -, ended⟩ := compresses.done
  rw [← runEntries_same (sameRun_lent_iff.mpr compresses.alike)]
  exact (reachesEnd_shared loaded compresses.member made p.bytes direction state).mp ended

/-- Stored fields come from the entries of the rule. -/
theorem sources_of_run {packet : List UInt8} {last : CompressionState}
    (ran : runEntries packet direction rule.fields .initial = .ok (some last)) :
    ∀ stored ∈ last.fields, ∃ entry ∈ rule.fields,
      entry.entryIndex = stored.1.entryIndex ∧ entry.field = stored.1.field := by
  intro stored member
  have listed := List.mem_map_of_mem
    (f := fun stored => (stored.1.field, stored.1.fieldPosition, stored.1.entryIndex)) member
  rw [fields_of_run ran] at listed
  obtain ⟨entry, inside, same⟩ := List.mem_map.mp listed
  simp only [Prod.mk.injEq] at same
  exact ⟨entry, (List.mem_filter.mp inside).1, same.2.2, same.1⟩

/-- The rule identifier, the residue and the suffix that the leaf settled on. -/
theorem Rule.Compresses.spelled (compresses : rule.Compresses ctx direction p state datagram)
    (loaded : ctx.Loaded) :
    ∃ suffix, leafSuffix p.bytes direction state = .ok (some suffix) ∧
      datagram.bits = rule.id.bits ++ (state.residue.bits ++ ofBytes suffix) ∧
      datagram.bitLen ≤ datagram.bytes.length * 8 := by
  have valid := loaded.valid
  obtain ⟨c, made, done, ended⟩ := compresses.done
  have lent := (reachesEnd_shared loaded compresses.member made p.bytes direction state).mp ended
  obtain ⟨rfl, built⟩ := Compressor.new_built made
  have fit := fun other member => (valid.rules other member).id
  rcases Compressor.compress_ok fit built done with ⟨k, other, last, -, own⟩ |
    ⟨k, other, placed, ⟨error, failed⟩, -⟩
  · have listed := List.mem_of_getElem? own.stands.placed
    obtain ⟨w, shape, body, bits, carries⟩ := leafCandidate_carries (fit other listed) own.made
    cases shape
    obtain rfl : other = rule := by
      have named : rule.id = other.id := compresses.selected
      exact PrefixCode.word_unique valid.prefixFree listed compresses.member (List.prefix_refl _)
        (by rw [named])
    have same := own.ran.symm.trans lent
    cases same
    cases carries with
    | whole natures =>
      rcases natures with plain | ⟨empty, -⟩
      · have codes := compresses.codes
        rw [plain] at codes
        rcases codes with code | code <;> cases code
      · exact absurd empty compresses.entries
    | residue _ _ found =>
      exact ⟨_, found, by rw [bits_datagram, bits], bitLen_datagram_le w _⟩
  · rw [Ipv6Packet.parse_bytes] at failed
    cases failed

/-- What the receiver decodes is what the sender stored, without the computed fields. -/
theorem Rule.Compresses.gathered (compresses : rule.Compresses ctx direction p state datagram)
    (loaded : ctx.Loaded) :
    Gathered p direction state ∧ Elides state.fields (state.fields.withoutComputed rule) := by
  have ran := compresses.ran loaded
  refine ⟨(Gathered.initial p direction).run ran, ?_⟩
  exact elides_withoutComputed (loaded.valid.rules rule compresses.member).fields
    (loaded.indexed compresses.member) (sources_of_run ran)

/-- Framing the datagram yields the decoded fields and the suffix. -/
theorem Rule.Compresses.framed (compresses : rule.Compresses ctx direction p state datagram)
    (loaded : ctx.Loaded) {provider : Option ExternalValueProvider}
    (restores : rule.Restores direction provider state.fields) {suffix : List UInt8}
    (found : leafSuffix p.bytes direction state = .ok (some suffix))
    (bits : datagram.bits = rule.id.bits ++ (state.residue.bits ++ ofBytes suffix))
    (inside : datagram.bitLen ≤ datagram.bytes.length * 8) :
    Decompressor.readFrame ⟨ctx, provider⟩ (receivingPosition direction) datagram.bytes
        datagram.bitLen =
      .ok (.coded rule (state.fields.withoutComputed rule)
        (if suffix = [] then none else some suffix)) := by
  have valid := loaded.valid
  have spelled : meaningfulBits datagram.bytes datagram.bitLen =
      rule.id.bits ++ (state.residue.bits ++ ofBytes suffix) := bits
  have selected := selectRule_of_starts (fun other listed => (valid.rules other listed).id)
    valid.prefixFree compresses.member inside (by rw [spelled]; exact List.prefix_append _ _)
  have rest : (readerAt datagram.bytes datagram.bitLen inside rule.id.bitLen).unread =
      state.residue.bits ++ ofBytes suffix := by
    rw [unread_readerAt, spelled, ← rule.id.length_bits, List.drop_left]
  have decoded := decodeFields_of_restores loaded compresses.member (compresses.ran loaded) restores
    rest
  have behind : ((readerAt datagram.bytes datagram.bitLen inside rule.id.bitLen).skip
      state.residue.bitLen).unread = ofBytes suffix := by
    rw [BitReader.unread_skip, rest, ← state.residue.length_bits, List.drop_left]
  have silent : suffix ≠ [] → (state.fields.withoutComputed rule).hasExplicitPayload = false := by
    intro some
    rcases leafSuffix_some found with ⟨-, none⟩ | ⟨-, carried⟩
    · exact absurd none some
    · rw [(compresses.gathered loaded).2.hasExplicitPayload]
      exact (carryThroughSuffix_some carried).1
  obtain ⟨reader, ended⟩ := readSuffix_carried datagram.bytes behind silent
  have filled : rule.fields.isEmpty = false := by simpa using compresses.entries
  rw [Decompressor.readFrame, selected, ok_bind]
  dsimp only
  rcases compresses.codes with nature | nature
  · simp only [Decompressor.readBody, nature, filled, inverseDirection_receivingPosition, decoded,
      ok_bind, ended, Bool.false_eq_true, ↓reduceIte]
  · simp only [Decompressor.readBody, nature, filled, inverseDirection_receivingPosition, decoded,
      ok_bind, ended, Bool.false_eq_true, ↓reduceIte]

/-- The receiver rebuilds the packet from the decoded fields and the suffix. -/
theorem Rule.Compresses.decompress (compresses : rule.Compresses ctx direction p state datagram)
    (loaded : ctx.Loaded) {provider : Option ExternalValueProvider}
    (restores : rule.Restores direction provider state.fields) {suffix : List UInt8}
    (found : leafSuffix p.bytes direction state = .ok (some suffix))
    (bits : datagram.bits = rule.id.bits ++ (state.residue.bits ++ ofBytes suffix))
    (inside : datagram.bitLen ≤ datagram.bytes.length * 8) :
    Decompressor.decompressWithBitLenDetailed ⟨ctx, provider⟩ (receivingPosition direction)
        datagram.bytes datagram.bitLen =
      rebuildCarried direction (state.fields.withoutComputed rule) suffix >>= fun packet =>
        .ok ⟨packet, rule.id⟩ := by
  have framed := compresses.framed loaded restores found bits inside
  rw [Decompressor.decompress_eq_finish, framed, ok_bind, inverseDirection_receivingPosition]
  rfl

/- The verdict. -/

/-- No header that was started is left incomplete: the sender's own rebuild gave the packet, or the
    split in front of the suffix is where the rebuilt header ends. -/
def Rebuildable (p : Ipv6Packet) (direction : Direction) (fields sent : FieldStore) : Prop :=
  reconstructPacket direction fields = .ok p.bytes ∨ Covers p sent

/-- The checksum that was not sent is the one that the receiver computes. -/
def SumsOuter (p : Ipv6Packet) (sent : FieldStore) : Prop :=
  sent.containsFieldScope (checksumField p.nextHeader) .outer ∨ p.Checksummed

theorem Covers.sumsEmbedded {sent : FieldStore} (faithful : Faithful p direction sent)
    (covers : Covers p sent) : SumsEmbedded p sent := by
  intro present m e parsed carries
  obtain ⟨_, -, read⟩ := faithful.present rfl present
  obtain ⟨m', _, icmpv6, parsed', error, -⟩ := read.embedded
  cases parsed.symm.trans parsed'
  have other : ¬ p.nextHeader = 17 := by
    rw [icmpv6]
    decide
  cases covers with
  | udp udp => exact absurd udp other
  | coap udp => exact absurd udp other
  | icmpv6 _ parsed' ordinary =>
    cases parsed.symm.trans parsed'
    rw [error] at ordinary
    cases ordinary
  | icmpv6Error _ parsed' _ _ carries' _ embedded =>
    cases parsed.symm.trans parsed'
    cases carries.symm.trans carries'
    exact (embedded present).summed

theorem Covers.hasChecksum {sent : FieldStore} (covers : Covers p sent) : p.HasChecksum := by
  cases covers with
  | udp udp parsed _ _ => exact hasChecksum_udp udp parsed
  | coap udp parsed _ _ => exact hasChecksum_udp udp parsed
  | icmpv6 icmpv6 parsed _ _ => exact hasChecksum_icmpv6 icmpv6 parsed
  | icmpv6Error icmpv6 parsed _ _ _ _ _ => exact hasChecksum_icmpv6 icmpv6 parsed

theorem Faithful.hasChecksum {fields : FieldStore} (faithful : Faithful p direction fields)
    (done : reconstructPacket direction fields = .ok p.bytes) : p.HasChecksum := by
  simp only [reconstructPacket, bind_eq_ok] at done
  obtain ⟨_, done, _, lengths, same⟩ := done
  cases same
  cases wrote_of_reconstructPacketAt done with
  | udp named made header length =>
    have udp : p.nextHeader = 17 := faithful.nextHeader (packetForScope_outer p) header named
    obtain ⟨u, parsed⟩ := udp_of_validatePacketLengths udp lengths
    exact hasChecksum_udp udp parsed
  | icmpv6 named made header length =>
    have icmpv6 : p.nextHeader = 58 := faithful.nextHeader (packetForScope_outer p) header named
    obtain ⟨m, parsed, -⟩ := faithful.content_of_rebuilt icmpv6 done
    exact hasChecksum_icmpv6 icmpv6 parsed

theorem Rebuildable.hasChecksum {sent : FieldStore}
    (rebuildable : Rebuildable p direction state.fields sent) (gathered : Gathered p direction state) :
    p.HasChecksum := by
  rcases rebuildable with exact | covers
  · exact Faithful.hasChecksum gathered.read exact
  · exact covers.hasChecksum

theorem sumsOuter_iff {sent : FieldStore} (room : p.HasChecksum) :
    p.recomputed sent .outer = p.bytes ↔ SumsOuter p sent := by
  rw [Ipv6Packet.recomputed, SumsOuter]
  by_cases present : sent.containsFieldScope (checksumField p.nextHeader) .outer
  · simp [present]
  · rw [if_neg present, Ipv6Packet.resummed_eq_iff room]
    simp [present]

/- The packets of one context's UDP rule. -/

theorem udpRule_restores {packet : List UInt8} {state : CompressionState}
    (ran : runEntries packet .down udpRule.fields .initial = .ok (some state)) :
    udpRule.Restores .down none state.fields := by
  have member : udpRule ∈ udpContext.rules.rules := List.mem_cons_self
  apply Rule.restores_of_codable udpContext_loaded member ran
  intro entry listed
  have fixed : ∀ entry ∈ udpRule.fields, (∃ bits, entry.length = .fixedBits bits) ∧
      (entry.action = .compute ∨ entry.action = .notSent ∧ entry.matching = .equal) := by
    simp [udpRule, fixedEntry, computedEntry]
  obtain ⟨⟨bits, length⟩, action⟩ := fixed entry (mem_active.mp listed).1
  constructor
  · rcases action with computed | ⟨unsent, equal⟩
    · exact .inr (.inl computed)
    · exact .inr (.inr (.inr (.inr ⟨unsent, equal, by simp [length], by simp [length]⟩)))
  · intro i unit previous
    rw [length] at previous
    cases previous

theorem udpRule_compresses {p : Ipv6Packet} {state : CompressionState}
    {datagram : CompressedDatagram}
    (ran : runEntries p.bytes .down udpRule.fields .initial = .ok (some state))
    (selected : datagram.ruleId = udpRule.id)
    (compressed : (Compressor.new udpContext >>= fun c => c.compress .down p.bytes) = .ok datagram) :
    udpRule.Compresses udpContext .down p state datagram := by
  have member : udpRule ∈ udpContext.rules.rules := List.mem_cons_self
  rw [bind_eq_ok] at compressed
  obtain ⟨c, made, compressed⟩ := compressed
  refine ⟨member, .inl rfl, List.cons_ne_nil _ _, ?_, selected.symm, c, made, compressed, ?_⟩
  · intro k entry placed _
    have all : ∀ k < udpRule.fields.length, ∀ entry, udpRule.fields[k]? = some entry →
        lentIndex udpContext.rules.rules udpRule k = entry.entryIndex := by decide +kernel
    exact all k (List.getElem?_eq_some_iff.mp placed).1 entry placed
  · apply (reachesEnd_shared udpContext_loaded member made p.bytes .down state).mpr
    exact (congrArg (runEntries p.bytes .down · .initial) udpRule.lent_alone).trans ran

/-- From a datagram of a rule that leaves no started header incomplete comes the packet, but for the
    checksum that is left to be computed. -/
theorem Rule.Compresses.received
    (compresses : rule.Compresses ctx direction p state datagram) (loaded : ctx.Loaded)
    {provider : Option ExternalValueProvider}
    (restores : rule.Restores direction provider state.fields)
    (rebuildable : Rebuildable p direction state.fields (state.fields.withoutComputed rule))
    (sums : SumsEmbedded p (state.fields.withoutComputed rule)) :
    Decompressor.decompressWithBitLenDetailed ⟨ctx, provider⟩ (receivingPosition direction)
        datagram.bytes datagram.bitLen =
      .ok ⟨p.recomputed (state.fields.withoutComputed rule) .outer, rule.id⟩ := by
  obtain ⟨suffix, found, bits, inside⟩ := compresses.spelled loaded
  obtain ⟨gathered, elides⟩ := compresses.gathered loaded
  rw [compresses.decompress loaded restores found bits inside]
  rcases leafSuffix_some found with ⟨exact, rfl⟩ | ⟨inexact, carried⟩
  · rw [rebuildCarried_nil, Faithful.rebuilt gathered.read elides exact sums, ok_bind]
  · rcases rebuildable with exact | covers
    · exact absurd exact inexact
    · rw [covers.rebuilds gathered elides carried, ok_bind]

/-- The receiver returns the packet of a datagram exactly when no started header is left incomplete
    and the checksums that are left to be computed are those of the packet. -/
theorem Rule.Compresses.returned_iff
    (compresses : rule.Compresses ctx direction p state datagram) (loaded : ctx.Loaded)
    {provider : Option ExternalValueProvider}
    (restores : rule.Restores direction provider state.fields) :
    Decompressor.decompressWithBitLenDetailed ⟨ctx, provider⟩ (receivingPosition direction)
        datagram.bytes datagram.bitLen = .ok ⟨p.bytes, rule.id⟩ ↔
      Rebuildable p direction state.fields (state.fields.withoutComputed rule) ∧
        SumsEmbedded p (state.fields.withoutComputed rule) ∧
        SumsOuter p (state.fields.withoutComputed rule) := by
  obtain ⟨gathered, elides⟩ := compresses.gathered loaded
  constructor
  · intro returned
    have needed : Rebuildable p direction state.fields (state.fields.withoutComputed rule) ∧
        SumsEmbedded p (state.fields.withoutComputed rule) := by
      obtain ⟨suffix, found, bits, inside⟩ := compresses.spelled loaded
      rw [compresses.decompress loaded restores found bits inside, bind_eq_ok] at returned
      obtain ⟨packet, rebuilt, same⟩ := returned
      cases same
      rcases leafSuffix_some found with ⟨exact, rfl⟩ | ⟨-, carried⟩
      · rw [rebuildCarried_nil] at rebuilt
        exact ⟨.inl exact, Faithful.sumsEmbedded gathered.read elides exact rebuilt⟩
      · have covers := Covers.of_rebuilt gathered elides carried rebuilt rfl
        exact ⟨.inr covers, covers.sumsEmbedded (elides.faithful gathered.read)⟩
    obtain ⟨rebuildable, sums⟩ := needed
    refine ⟨rebuildable, sums, (sumsOuter_iff (rebuildable.hasChecksum gathered)).mp ?_⟩
    rw [compresses.received loaded restores rebuildable sums] at returned
    exact congrArg DecompressedDatagram.packet (Except.ok.inj returned)
  · rintro ⟨rebuildable, sums, outer⟩
    rw [compresses.received loaded restores rebuildable sums,
      (sumsOuter_iff (rebuildable.hasChecksum gathered)).mpr outer]

/-- A packet under a rule that leaves the checksum to be computed is handed on with a checksum that
    holds, whatever it arrived with at the sender, and is otherwise the same packet. -/
theorem elided_checksum_recomputed
    (compresses : rule.Compresses ctx direction p state datagram) (loaded : ctx.Loaded)
    {provider : Option ExternalValueProvider}
    (restores : rule.Restores direction provider state.fields)
    (rebuildable : Rebuildable p direction state.fields (state.fields.withoutComputed rule))
    (sums : SumsEmbedded p (state.fields.withoutComputed rule)) :
    ∃ q : List UInt8,
      Decompressor.decompressWithBitLenDetailed ⟨ctx, provider⟩ (receivingPosition direction)
        datagram.bytes datagram.bitLen = .ok ⟨q, rule.id⟩ ∧
      q.length = p.bytes.length ∧
      (∀ i, i < 40 + checksumStart p.nextHeader ∨ 40 + checksumStart p.nextHeader + 2 ≤ i →
        byteAt q i = byteAt p.bytes i) ∧
      ((state.fields.withoutComputed rule).containsFieldScope (checksumField p.nextHeader) .outer =
        false → segmentSum q = 65535) ∧
      (q = p.bytes ↔ SumsOuter p (state.fields.withoutComputed rule)) := by
  have returned := compresses.received loaded restores rebuildable sums
  obtain ⟨suffix, found, bits, inside⟩ := compresses.spelled loaded
  obtain ⟨gathered, elides⟩ := compresses.gathered loaded
  have room := rebuildable.hasChecksum gathered
  have length := Ipv6Packet.length_recomputed room (state.fields.withoutComputed rule) .outer
  refine ⟨_, returned, length, fun i outside => Ipv6Packet.byteAt_recomputed room _ _ outside, ?_,
    sumsOuter_iff room⟩
  intro elided
  have rebuilt := returned
  rw [compresses.decompress loaded restores found bits inside, bind_eq_ok] at rebuilt
  obtain ⟨packet, rebuilt, same⟩ := rebuilt
  have same : packet = p.recomputed (state.fields.withoutComputed rule) .outer :=
    congrArg DecompressedDatagram.packet (Except.ok.inj same)
  subst same
  have next : byteAt (p.recomputed (state.fields.withoutComputed rule) .outer) 6 = p.nextHeader :=
    Ipv6Packet.byteAt_recomputed room _ _ (.inl (by omega))
  have bound : (p.recomputed (state.fields.withoutComputed rule) .outer).length ≤ 40 + 65535 := by
    have short := p.payload_lt
    have whole := p.length_payload
    omega
  exact (rebuild_wellFormed rebuilt).2.summed bound (by rw [next]; exact elided)

/-- The same datagram, damaged where its checksum stands. -/
def garbledPacket : Ipv6Packet where
  bytes := [0x60, 0, 0, 0, 0, 10, 17, 64] ++ [0, 0, 0, 0, 0, 0, 0, 3] ++
    [0, 0, 0, 0, 0, 0, 0, 4] ++ [0, 0, 0, 0, 0, 0, 0, 1] ++ [0, 0, 0, 0, 0, 0, 0, 2] ++
    [0x16, 0x34, 0x16, 0x33, 0, 10, 0xff, 0xff] ++ [0x68, 0x69]
  header := by decide
  version := by decide
  declared := by decide

def garbledState : CompressionState :=
  (runEntries garbledPacket.bytes .down udpRule.fields .initial).toOption.join.getD .initial

theorem elided_checksum_recomputed_at_garbled :
    ∃ q : List UInt8,
      Decompressor.decompressWithBitLenDetailed ⟨udpContext, none⟩ .device [2, 0x68, 0x69] 24 =
        .ok ⟨q, ⟨2, 8⟩⟩ ∧ segmentSum q = 65535 ∧ q ≠ garbledPacket.bytes := by
  have ran : runEntries garbledPacket.bytes .down udpRule.fields .initial =
      .ok (some garbledState) := by decide +kernel
  have compresses : udpRule.Compresses udpContext .down garbledPacket garbledState
      ⟨[2, 0x68, 0x69], 24, ⟨2, 8⟩⟩ := udpRule_compresses ran rfl (by decide +kernel)
  have covers : Covers garbledPacket (garbledState.fields.withoutComputed udpRule) :=
    .udp (by decide) (UdpDatagram.parse_bytes ⟨garbledPacket.payload, by decide, by decide⟩)
      (by decide +kernel) (by decide +kernel)
  have silent : SumsEmbedded garbledPacket (garbledState.fields.withoutComputed udpRule) :=
    covers.sumsEmbedded ((compresses.gathered udpContext_loaded).2.faithful
      (compresses.gathered udpContext_loaded).1.read)
  obtain ⟨q, returned, -, -, summed, same⟩ := elided_checksum_recomputed compresses
    udpContext_loaded (udpRule_restores ran) (.inr covers) silent
  refine ⟨q, returned, summed (by decide +kernel), fun exact => ?_⟩
  have outer : ¬ SumsOuter garbledPacket (garbledState.fields.withoutComputed udpRule) := by
    rw [SumsOuter, Ipv6Packet.Checksummed]
    decide +kernel
  exact outer (same.mp exact)

end
end SchcCore
