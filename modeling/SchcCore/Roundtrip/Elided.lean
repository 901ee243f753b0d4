import SchcCore.Roundtrip.Undone

/- What becomes of the fields that a rule leaves to be computed. A length comes out as it was. A
   checksum comes out as it is over what the receiver has: the sender looks at none, and one that
   did not hold is replaced. -/
namespace SchcCore
open Outcome Bytes BigEndian BitList FieldStore

/-- Where the receiver writes a checksum that was not sent: that of the packet, and that of the UDP
    packet that an error carries, behind the error's eight bytes and a header. -/
def Ipv6Packet.isSummedAt (p : Ipv6Packet) (sent : FieldStore) (i : Nat) : Bool :=
  (!sent.containsFieldScope (checksumField p.nextHeader) .outer &&
      40 + checksumStart p.nextHeader ≤ i && i < 40 + checksumStart p.nextHeader + 2) ||
    (sent.containsFieldScope (.ipv6 (.known .ipv6Version)) .embedded &&
      !sent.containsFieldScope (.udp (.known .udpChecksum)) .embedded && 94 ≤ i && i < 96)

/-- The packet comes out as it was but for checksums that were not sent, and those are the ones over
    what came out. -/
structure Recovers (p : Ipv6Packet) (sent : FieldStore) (q : List UInt8) : Prop where
  length : q.length = p.bytes.length
  kept : ∀ i, p.isSummedAt sent i = false → byteAt q i = byteAt p.bytes i
  outer : sent.containsFieldScope (checksumField p.nextHeader) .outer = false → Resummed q
  embedded : sent.containsFieldScope (.ipv6 (.known .ipv6Version)) .embedded →
    sent.containsFieldScope (.udp (.known .udpChecksum)) .embedded = false → Resummed (q.drop 48)

/-- No length is among what may differ. -/
theorem Recovers.lengths {p : Ipv6Packet} {sent : FieldStore} {q : List UInt8}
    (recovers : Recovers p sent q) :
    cut q 4 6 = cut p.bytes 4 6 ∧
      (p.nextHeader = 17 → p.HasChecksum → cut q 44 46 = cut p.bytes 44 46) := by
  have header := p.header
  have length := recovers.length
  have same {i : Nat} (inside : i + 1 < p.bytes.length) (first : p.isSummedAt sent i = false)
      (second : p.isSummedAt sent (i + 1) = false) : cut q i (i + 2) = cut p.bytes i (i + 2) := by
    rw [cut_two (by omega), cut_two inside, recovers.kept i first, recovers.kept (i + 1) second]
  refine ⟨same (by omega) ?_ ?_, fun udp room => ?_⟩
  · simp [Ipv6Packet.isSummedAt]
    omega
  · simp [Ipv6Packet.isSummedAt]
    omega
  · have inside := room.inside
    rw [checksumStart, if_pos udp] at inside
    have start : checksumStart p.nextHeader = 6 := by rw [checksumStart, if_pos udp]
    exact same (by omega) (by simp [Ipv6Packet.isSummedAt, start])
      (by simp [Ipv6Packet.isSummedAt, start])

section
variable {p e : Ipv6Packet} {direction : Direction} {fields sent : FieldStore} {scope : PacketScope}

theorem Ipv6Packet.Checksummed.room (summed : p.Checksummed) : p.HasChecksum := by
  have size := congrArg List.length summed
  rw [length_toBytes, cut, List.length_drop, List.length_take] at size
  unfold HasChecksum
  omega

/-- A packet whose checksum holds is unchanged when it is computed again. -/
theorem Ipv6Packet.Checksummed.resummed (summed : p.Checksummed) : Resummed p.bytes :=
  ⟨summed.room.inside, (resummed_eq_iff summed.room).mpr summed⟩

/-- What was sent, or stands elsewhere, comes out. -/
theorem Ipv6Packet.byteAt_recomputed_kept (room : e.HasChecksum) {i : Nat}
    (kept : sent.containsFieldScope (checksumField e.nextHeader) scope ∨
      i < 40 + checksumStart e.nextHeader ∨ 40 + checksumStart e.nextHeader + 2 ≤ i) :
    byteAt (e.recomputed sent scope) i = byteAt e.bytes i := by
  rcases kept with present | outside
  · rw [Ipv6Packet.recomputed, if_pos present]
  · exact Ipv6Packet.byteAt_recomputed room sent scope outside

/-- Behind the eight bytes of an error stands the packet that it carries. -/
theorem drop_error_bytes {m : Icmpv6Message} (parsed : Icmpv6Message.parse p.payload = .ok m)
    (error : isIcmpv6ErrorType m.messageType) (carries : Ipv6Packet.parse m.payload = .ok e) :
    p.bytes.drop 48 = e.bytes := by
  rw [Ipv6Packet.parse_eq_ok.mp carries, ← Icmpv6Message.drop_error error,
    Icmpv6Message.parse_eq_ok.mp parsed, ← p.drop_bytes, List.drop_drop, List.drop_drop]

theorem drop_recomputed (room : p.HasChecksum) (sent : FieldStore) :
    (p.recomputed sent .outer).drop 48 = p.bytes.drop 48 := by
  have start : checksumStart p.nextHeader ≤ 6 := by
    unfold checksumStart
    split <;> decide
  unfold Ipv6Packet.recomputed
  split
  · rfl
  · have inside := room.inside
    exact drop_overwrite_after (by omega) (by rw [length_toBytes]; omega)

/-- Where the packet that an error carries comes out as it was, so does the packet. -/
theorem Faithful.recovers_recomputed (faithful : Faithful p direction sent) (room : p.HasChecksum)
    (sums : SumsEmbedded p sent)
    (outer : sent.containsFieldScope (checksumField p.nextHeader) .outer = false →
      Resummed (p.recomputed sent .outer)) : Recovers p sent (p.recomputed sent .outer) where
  length := Ipv6Packet.length_recomputed room sent .outer
  kept i plain := by
    apply Ipv6Packet.byteAt_recomputed_kept room
    by_cases present : sent.containsFieldScope (checksumField p.nextHeader) .outer
    · exact .inl present
    · simp only [Ipv6Packet.isSummedAt, present, Bool.not_false, Bool.true_and, Bool.or_eq_false_iff,
        Bool.and_eq_false_iff, decide_eq_false_iff_not] at plain
      exact .inr (by omega)
  outer := outer
  embedded present unsent := by
    obtain ⟨_, -, read⟩ := faithful.present rfl present
    obtain ⟨m, e, -, parsed, error, carries⟩ := read.embedded
    have summed := (sums present m e parsed carries).resolve_left (by simp [unsent])
    rw [drop_recomputed room, drop_error_bytes parsed error carries]
    exact summed.resummed

/-- An ICMPv6 message behind a header, in front of its content and behind its checksum. -/
theorem Ipv6Packet.message_split (p : Ipv6Packet) (m : Icmpv6Message) (length checksum : Nat)
    (content : List UInt8) :
    p.withUpper length (m.segment checksum content) =
      p.withUpper length [m.messageType, byteAt m.bytes 1] ++ (toBytes 2 checksum ++ content) := by
  rw [p.withUpper_append, Icmpv6Message.segment, List.append_assoc]

theorem Ipv6Packet.byteAt_message_content (p : Ipv6Packet) (m : Icmpv6Message)
    (length checksum : Nat) (content : List UInt8) (i : Nat) :
    byteAt (p.withUpper length (m.segment checksum content)) (44 + i) = byteAt content i := by
  have size : (p.withUpper length [m.messageType, byteAt m.bytes 1] ++ toBytes 2 checksum).length =
      44 := by
    rw [List.length_append, p.length_withUpper, length_toBytes]
    rfl
  rw [p.message_split, ← List.append_assoc, ← size, byteAt_append_right]

/-- Two messages that differ in the content agree before it, but for the checksum. -/
theorem Ipv6Packet.byteAt_message_header (p : Ipv6Packet) (m : Icmpv6Message)
    {length checksum checksum' : Nat} (content content' : List UInt8) {i : Nat} (before : i < 44)
    (kept : checksum = checksum' ∨ i < 42) :
    byteAt (p.withUpper length (m.segment checksum content)) i =
      byteAt (p.withUpper length (m.segment checksum' content')) i := by
  have size : (p.withUpper length [m.messageType, byteAt m.bytes 1]).length = 42 := by
    rw [p.length_withUpper]
    rfl
  rw [p.message_split, p.message_split]
  rcases kept with rfl | early
  · have whole : (p.withUpper length [m.messageType, byteAt m.bytes 1] ++
        toBytes 2 checksum).length = 44 := by
      rw [List.length_append, size, length_toBytes]
    rw [← List.append_assoc, ← List.append_assoc]
    exact (byteAt_append_left content (by omega)).trans (byteAt_append_left content' (by omega)).symm
  · rw [byteAt_append_left _ (by omega), byteAt_append_left _ (by omega)]

/-- The receiver writes the packet that an error carries with a checksum of its own, and the error
    around it. -/
theorem Faithful.recovers_carried (faithful : Faithful p direction fields)
    (elides : Elides fields sent) (exact : reconstructPacket direction fields = .ok p.bytes)
    {q : List UInt8} (rebuilt : reconstructPacket direction sent = .ok q)
    (present : sent.containsFieldScope (.ipv6 (.known .ipv6Version)) .embedded) :
    Recovers p sent q := by
  have present' : fields.containsFieldScope (.ipv6 (.known .ipv6Version)) .embedded :=
    (elides.containsFieldScope rfl .embedded).symm.trans present
  obtain ⟨_, -, read⟩ := faithful.present rfl present'
  obtain ⟨_, _, icmpv6, -⟩ := read.embedded
  have faithful' := elides.faithful faithful
  have consistent := (reconstructPacket_wellFormed rebuilt).2
  simp only [reconstructPacket, bind_eq_ok] at exact rebuilt
  obtain ⟨_, exact, _, -, same⟩ := exact
  cases same
  obtain ⟨_, rebuilt, _, -, same⟩ := rebuilt
  cases same
  obtain ⟨m, parsed, -, -, -, made⟩ := faithful.content_of_rebuilt icmpv6 exact
  obtain ⟨e, u, carries, udp, datagram, error, inner⟩ :=
    faithful.rebuilt_embedded elides parsed present' made
  obtain ⟨m', content, parsed', header, typed, coded, made', -⟩ :=
    faithful'.content_of_written icmpv6 rebuilt
  cases parsed.symm.trans parsed'
  -- Both contents begin with the word of the type.
  obtain ⟨word, carried, read, four, -, own⟩ := carried_of_icmpv6Content error present' made
  obtain ⟨word', carried', read', -, same, other⟩ := carried_of_icmpv6Content error present made'
  rw [elides.icmpv6TypeWord, read] at read'
  cases read'
  cases inner.symm.trans same
  have behind : carried = e.bytes := by
    rw [Ipv6Packet.parse_eq_ok.mp carries, ← Icmpv6Message.drop_error error, ← own,
      List.drop_left' four]
  subst behind
  have room := hasChecksum_udp udp datagram
  have size : content.length = (m.bytes.drop 4).length := by
    rw [← own, ← other, List.length_append, List.length_append,
      Ipv6Packet.length_recomputed room sent .embedded]
  have message := Icmpv6Message.parse_eq_ok.mp parsed
  have whole : 4 + content.length = p.payload.length := by
    have least := m.four_le
    rw [size, List.length_drop, ← message]
    omega
  have written := faithful'.reconstructPacketAt_content icmpv6 parsed header typed coded made'
    (whole ▸ p.payload_lt)
  have length : sentOr sent (.ipv6 (.known .ipv6PayloadLength)) .outer p.payload.length
      p.payload.length = p.payload.length := ite_self _
  rw [whole, length] at written
  have result := Except.ok.inj (rebuilt.symm.trans written)
  have packet : p.bytes = p.withUpper p.payload.length (m.segment m.checksum (m.bytes.drop 4)) := by
    rw [m.segment_content, m.checksum_bytes, overwrite_self _ (by decide) m.four_le, message,
      p.withUpper_payload]
  have field : checksumField p.nextHeader = .icmpv6 (.known .icmpv6Checksum) := by
    rw [icmpv6]
    rfl
  have start : checksumStart p.nextHeader = 2 := by
    rw [icmpv6]
    rfl
  have carriedAt (body : List UInt8) (k : Nat) : byteAt (word.bytes ++ body) (4 + k) = byteAt body k := by
    have behind := byteAt_append_right word.bytes body k
    rwa [four] at behind
  have embedded : q.drop 48 = e.recomputed sent .embedded := by
    have split : q.drop 48 = ((q.drop 40).drop 4).drop 4 := by
      rw [List.drop_drop, List.drop_drop]
    rw [split, result, p.drop_withUpper, m.drop_segment, ← other, List.drop_left' four]
  refine ⟨?_, fun i plain => ?_, fun unsent => ?_, fun _ unsent => ?_⟩
  · have long := p.length_payload
    have header := p.header
    rw [result, p.length_withUpper, m.length_segment, whole]
    omega
  · by_cases before : i < 44
    · rw [result, packet]
      apply p.byteAt_message_header m content (m.bytes.drop 4) before
      unfold sentOr
      by_cases checksum : sent.containsFieldScope (.icmpv6 (.known .icmpv6Checksum)) .outer
      · exact .inl (if_pos checksum)
      · simp only [Ipv6Packet.isSummedAt, field, start, checksum, Bool.not_false, Bool.true_and,
          Bool.or_eq_false_iff, Bool.and_eq_false_iff, decide_eq_false_iff_not] at plain
        exact .inr (by omega)
    · obtain ⟨j, rfl⟩ := Nat.exists_eq_add_of_le (Nat.not_lt.mp before)
      rw [result, packet, p.byteAt_message_content, p.byteAt_message_content, ← own, ← other]
      by_cases early : j < 4
      · rw [byteAt_append_left _ (by omega), byteAt_append_left _ (by omega)]
      · obtain ⟨k, rfl⟩ := Nat.exists_eq_add_of_le (Nat.not_lt.mp early)
        rw [carriedAt, carriedAt]
        apply Ipv6Packet.byteAt_recomputed_kept room
        rw [checksumField, checksumStart, if_pos udp, if_pos udp]
        by_cases checksum : sent.containsFieldScope (.udp (.known .udpChecksum)) .embedded
        · exact .inl checksum
        · simp only [Ipv6Packet.isSummedAt, present, checksum, Bool.not_false, Bool.true_and,
            Bool.or_eq_false_iff, Bool.and_eq_false_iff, decide_eq_false_iff_not] at plain
          exact .inr (by omega)
  · apply consistent.resummed
    rw [result, p.byteAt_withUpper]
    exact unsent
  · rw [embedded]
    apply (reconstructPacketAt_consistent inner).resummed
    rw [Ipv6Packet.byteAt_recomputed room sent .embedded (.inl (by omega))]
    exact (congrArg (sent.containsFieldScope · .embedded) (if_pos udp)).trans unsent

end

/-- What the receiver returns for a packet under a rule whose entries are numbered alike and give
    their values back is the packet but for the checksums that were not sent: a length that is
    computed is the one that was elided, and a checksum is when the sender's held. -/
theorem elided_fields_recovered {ctx : RuleContext} (loaded : ctx.Loaded) {c : Compressor}
    (made : Compressor.new ctx = .ok c) {direction : Direction} {packet : List UInt8}
    {datagram : CompressedDatagram} (done : c.compress direction packet = .ok datagram)
    {rule : Rule} (member : rule ∈ ctx.rules.rules) (selected : rule.id = datagram.ruleId)
    (codes : rule.nature = .compression ∨ rule.nature = .management) (entries : rule.fields ≠ [])
    (equal : ∀ entry ∈ rule.active direction, entry.action = .notSent → entry.matching = .equal) :
    ∃ (p : Ipv6Packet) (state : CompressionState), p.bytes = packet ∧
      c.ReachesEnd packet direction rule state ∧
      ∀ provider, SuppliesStored provider rule direction state.fields →
        rule.NumberedAlike ctx.rules.rules direction → rule.GivesBack direction state.fields →
        Rebuildable p direction state.fields (state.fields.withoutComputed rule) →
        ∀ q id, Decompressor.decompressWithBitLenDetailed ⟨ctx, provider⟩
            (receivingPosition direction) datagram.bytes datagram.bitLen = .ok ⟨q, id⟩ →
          Recovers p (state.fields.withoutComputed rule) q ∧
          (cut q 4 6 = cut packet 4 6 ∧ (p.nextHeader = 17 → cut q 44 46 = cut packet 44 46)) ∧
          (q = packet ↔ SumsEmbedded p (state.fields.withoutComputed rule) ∧
            SumsOuter p (state.fields.withoutComputed rule)) := by
  obtain ⟨p, state, rfl, ended⟩ :=
    reached_of_selected loaded made done member selected entries
  refine ⟨p, state, rfl, ended, fun provider supplies alike gives rebuildable q id returned => ?_⟩
  have compresses : rule.Compresses ctx direction p state datagram :=
    ⟨member, codes, entries, alike, selected, c, made, done, ended⟩
  have restores := (Rule.restores_iff_givesBack loaded member (compresses.ran loaded) equal
    supplies).mpr gives
  obtain ⟨suffix, found, bits, inside⟩ := compresses.spelled loaded
  obtain ⟨gathered, elides⟩ := compresses.gathered loaded
  have faithful : Faithful p direction state.fields := gathered.read
  have room := rebuildable.hasChecksum gathered
  have verdict := compresses.returned_iff loaded restores
  have rebuilt := returned
  rw [compresses.decompress loaded restores found bits inside, bind_eq_ok] at rebuilt
  obtain ⟨packet, rebuilt, same⟩ := rebuilt
  cases same
  have recovers : Recovers p (state.fields.withoutComputed rule) q := by
    by_cases sums : SumsEmbedded p (state.fields.withoutComputed rule)
    · have same := (compresses.received loaded restores rebuildable sums).symm.trans returned
      cases same
      apply (elides.faithful faithful).recovers_recomputed room sums
      intro unsent
      apply (rebuild_wellFormed rebuilt).2.resummed
      rw [Ipv6Packet.byteAt_recomputed room _ _ (.inl (by omega))]
      exact unsent
    · have present : (state.fields.withoutComputed rule).containsFieldScope
          (.ipv6 (.known .ipv6Version)) .embedded := by
        by_contra absent
        exact sums fun present => absurd present absent
      rcases rebuildable with exact | covers
      · rcases leafSuffix_some found with ⟨-, rfl⟩ | ⟨inexact, -⟩
        · rw [rebuildCarried_nil] at rebuilt
          exact faithful.recovers_carried elides exact rebuilt present
        · exact absurd exact inexact
      · exact absurd (covers.sumsEmbedded (elides.faithful faithful)) sums
  refine ⟨recovers, ⟨recovers.lengths.1, fun udp => recovers.lengths.2 udp room⟩, ?_⟩
  rw [returned] at verdict
  constructor
  · rintro rfl
    exact (verdict.mp rfl).2
  · intro summed
    exact congrArg DecompressedDatagram.packet (Except.ok.inj (verdict.mpr ⟨rebuildable, summed⟩))

/-- The damaged checksum is elided, and comes out mended. -/
theorem elided_fields_recovered_at_garbled :
    Decompressor.decompressWithBitLenDetailed ⟨udpContext, none⟩ .device [2, 0x68, 0x69] 24 =
        .ok ⟨helloPacket.bytes, ⟨2, 8⟩⟩ ∧
      Recovers garbledPacket (garbledState.fields.withoutComputed udpRule) helloPacket.bytes := by
  have ran : runEntries garbledPacket.bytes .down udpRule.fields .initial =
      .ok (some garbledState) := by decide +kernel
  have compresses : udpRule.Compresses udpContext .down garbledPacket garbledState
      ⟨[2, 0x68, 0x69], 24, ⟨2, 8⟩⟩ := udpRule_compresses ran rfl (by decide +kernel)
  obtain ⟨c, made, done, ended⟩ := compresses.done
  obtain ⟨p, state, bytes, ended', recovered⟩ := elided_fields_recovered udpContext_loaded made done
    compresses.member rfl compresses.codes compresses.entries udpRule_equal
  obtain rfl : p = garbledPacket := by
    cases p
    cases bytes
    rfl
  obtain rfl := ended.unique udpContext_loaded made compresses.member ended'
  have covers : Covers garbledPacket (garbledState.fields.withoutComputed udpRule) :=
    .udp (by decide) (UdpDatagram.parse_bytes ⟨garbledPacket.payload, by decide, by decide⟩)
      (by decide +kernel) (by decide +kernel)
  have returned : Decompressor.decompressWithBitLenDetailed ⟨udpContext, none⟩ .device
      [2, 0x68, 0x69] 24 = .ok ⟨helloPacket.bytes, ⟨2, 8⟩⟩ := by decide +kernel
  exact ⟨returned, (recovered none (udpRule_supplies _) compresses.alike (udpRule_givesBack ran)
    (.inr covers) _ _ returned).1⟩

/-- A checksum that does not hold is elided like any other, and the receiver hands on another. -/
theorem garbled_checksum_not_recovered :
    ∃ c, udpContext.Loaded ∧ Compressor.new udpContext = .ok c ∧
      udpRule ∈ udpContext.rules.rules ∧
      (∃ entry ∈ udpRule.active .down,
        entry.field = .udp (.known .udpChecksum) ∧ entry.action = .compute) ∧
      (∀ entry ∈ udpRule.active .down, entry.action = .notSent → entry.matching = .equal) ∧
      ¬ garbledPacket.Checksummed ∧
      c.compress .down garbledPacket.bytes = .ok ⟨[2, 0x68, 0x69], 24, udpRule.id⟩ ∧
      Decompressor.decompressWithBitLenDetailed ⟨udpContext, none⟩ .device [2, 0x68, 0x69] 24 =
        .ok ⟨helloPacket.bytes, udpRule.id⟩ ∧
      cut helloPacket.bytes 46 48 = [0x6b, 0x00] ∧ cut garbledPacket.bytes 46 48 = [0xff, 0xff] := by
  have compressed : (Compressor.new udpContext >>= fun c => c.compress .down garbledPacket.bytes) =
      .ok ⟨[2, 0x68, 0x69], 24, udpRule.id⟩ := by decide +kernel
  rw [bind_eq_ok] at compressed
  obtain ⟨c, made, done⟩ := compressed
  refine ⟨c, udpContext_loaded, made, List.mem_cons_self, by decide +kernel, udpRule_equal, ?_, done,
    by decide +kernel, by decide, by decide⟩
  unfold Ipv6Packet.Checksummed
  decide +kernel

end SchcCore
