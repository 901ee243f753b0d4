import SchcCore.Decompress.Select

/- Datagrams that carry the packet itself. The sender wraps any bytes; the receiver unwraps
   them unless they are an IPv6 packet whose declared lengths do not hold. -/
namespace SchcCore
open Outcome BitList

/-- The end that receives what is sent in a direction. -/
def receivingPosition : Direction → Position
  | .up => .core
  | .down => .device

@[simp] theorem inverseDirection_receivingPosition (direction : Direction) :
    inverseDirection (receivingPosition direction) = direction := by
  cases direction <;> rfl

/-- Whole bytes behind the identifier are the packet, once its lengths are checked. -/
theorem decodeNoCompressionPayload_eq {reader : BitReader} {packet : List UInt8}
    (here : reader.unread = ofBytes packet) :
    decodeNoCompressionPayload reader = validatePacketLengths packet >>= fun _ => .ok packet := by
  have remaining : reader.remaining = 8 * packet.length := by
    rw [← BitReader.length_unread, here, length_ofBytes]
  have aligned : ¬ 8 * packet.length % 8 ≠ 0 := by omega
  have bytes : reader.unread = ofBytes packet ++ [] := by rw [here, List.append_nil]
  have read := BitReader.readBytesPadded_bytes bytes
  simp only [decodeNoCompressionPayload, remaining, aligned, ↓reduceIte, read, ok_bind]

/-- A datagram of a plain rule holds the identifier and the packet. -/
theorem Compressor.compress_whole {c : Compressor} {ctx : RuleContext} (valid : ctx.Valid)
    (made : Compressor.new ctx = .ok c) {direction : Direction} {packet : List UInt8}
    {datagram : CompressedDatagram} (done : c.compress direction packet = .ok datagram)
    {rule : Rule} (member : rule ∈ ctx.rules.rules) (named : rule.id = datagram.ruleId)
    (plain : rule.nature = .noCompression ∨ rule.fields = []) :
    datagram.bits = rule.id.bits ++ ofBytes packet ∧
      datagram.bitLen ≤ datagram.bytes.length * 8 ∧
      (rule.nature = .noCompression ∨
        (rule.fields = [] ∧ (rule.nature = .compression ∨ rule.nature = .management))) := by
  obtain ⟨rfl, built⟩ := new_built made
  have fit := fun other member => (valid.rules other member).id
  have same : ∀ other ∈ c.context.rules.rules, other.id = rule.id → other = rule := by
    intro other listed names
    exact PrefixCode.word_unique valid.prefixFree listed member (List.prefix_refl _)
      (by rw [names])
  rcases compress_ok fit built done with ⟨k, other, state, -, own⟩ |
    ⟨k, other, placed, -, nature, -, written⟩
  · have listed := List.mem_of_getElem? own.stands.placed
    obtain ⟨w, shape, body, bits, carries⟩ := leafCandidate_carries (fit other listed) own.made
    cases shape
    obtain rfl := same other listed named.symm
    cases carries with
    | whole natures =>
      exact ⟨by rw [bits_datagram, bits], bitLen_datagram_le w _, natures⟩
    | residue natures fields =>
      rcases plain with nature | empty
      · rw [nature] at natures
        rcases natures with other | other <;> cases other
      · exact absurd empty fields
  · have listed := List.mem_of_getElem? placed
    obtain ⟨w, written', bits⟩ := noCompressionCandidate_ok (fit other listed) k packet
    rw [written'] at written
    cases written
    obtain rfl := same other listed named.symm
    exact ⟨by rw [bits_datagram, bits], bitLen_datagram_le w _, .inl nature⟩

/-- What a plain rule wraps is unwrapped to the same bytes, provided that IPv6 and UDP lengths
    among them hold; otherwise the receiver reports the length that does not. -/
theorem no_compression_transparent {ctx : RuleContext} (loaded : ctx.Loaded) {c : Compressor}
    (made : Compressor.new ctx = .ok c) {direction : Direction} {packet : List UInt8}
    {datagram : CompressedDatagram} (done : c.compress direction packet = .ok datagram)
    {rule : Rule} (member : rule ∈ ctx.rules.rules) (selected : rule.id = datagram.ruleId)
    (plain : rule.nature = .noCompression ∨ rule.fields = [])
    (provider : Option ExternalValueProvider) :
    Decompressor.decompressWithBitLen ⟨ctx, provider⟩ (receivingPosition direction)
        datagram.bytes datagram.bitLen =
      validatePacketLengths packet >>= fun _ => .ok packet := by
  have valid := loaded.valid
  obtain ⟨bits, inside, natures⟩ := Compressor.compress_whole valid made done member selected plain
  have spelled : meaningfulBits datagram.bytes datagram.bitLen = rule.id.bits ++ ofBytes packet :=
    bits
  have found := selectRule_of_starts (fun other listed => (valid.rules other listed).id)
    valid.prefixFree member inside (by rw [spelled]; exact List.prefix_append _ _)
  have rest : (readerAt datagram.bytes datagram.bitLen inside rule.id.bitLen).unread =
      ofBytes packet := by
    rw [unread_readerAt, spelled, ← rule.id.length_bits, List.drop_left]
  have unwrapped := decodeNoCompressionPayload_eq rest
  have decoded : Decompressor.decodePacket ⟨ctx, provider⟩ (receivingPosition direction)
      datagram.bytes rule (readerAt datagram.bytes datagram.bitLen inside rule.id.bitLen) =
      validatePacketLengths packet >>= fun _ => .ok packet := by
    rcases natures with nature | ⟨empty, nature | nature⟩
    · simp only [Decompressor.decodePacket, nature, unwrapped]
    · simp only [Decompressor.decodePacket, nature, empty, List.isEmpty_nil, ↓reduceIte, unwrapped]
    · simp only [Decompressor.decodePacket, nature, empty, List.isEmpty_nil, ↓reduceIte, unwrapped]
  rw [Decompressor.decompressWithBitLen, Decompressor.decompressWithBitLenDetailed, found]
  simp only [ok_bind, decoded]
  cases validatePacketLengths packet <;> rfl

/-- A context of one empty no-compression rule with a four-bit identifier. -/
def wrapperContext : RuleContext := ⟨⟨[⟨⟨3, 4⟩, [], .noCompression⟩], .empty⟩⟩

theorem wrapperContext_loaded : wrapperContext.Loaded :=
  .json ⟨[⟨3, 4, some "no-compression", []⟩]⟩ .empty rfl

theorem no_compression_transparent_at_raw_bytes :
    Decompressor.decompressWithBitLen ⟨wrapperContext, none⟩ (receivingPosition .up)
      [0x30, 0x10, 0x20, 0x30] 28 = .ok [1, 2, 3] := by
  have done : Compressor.compress ⟨wrapperContext, ⟨[⟨some ⟨3, 4⟩, some 0, []⟩]⟩⟩ .up [1, 2, 3] =
      .ok ⟨[0x30, 0x10, 0x20, 0x30], 28, ⟨3, 4⟩⟩ := rfl
  exact no_compression_transparent wrapperContext_loaded rfl done
    List.mem_cons_self rfl (.inl rfl) none

/-- An IPv6 header that announces one byte of payload and has none: the sender wraps it, the
    receiver refuses it. -/
theorem short_ipv6_packet_not_unwrapped :
    ∃ c datagram, wrapperContext.Loaded ∧ Compressor.new wrapperContext = .ok c ∧
      c.compress .up ([0x60, 0, 0, 0, 0, 1] ++ List.replicate 34 0) = .ok datagram ∧
      datagram.ruleId = ⟨3, 4⟩ ∧
      Decompressor.decompressWithBitLen ⟨wrapperContext, none⟩ (receivingPosition .up)
        datagram.bytes datagram.bitLen ≠ .ok ([0x60, 0, 0, 0, 0, 1] ++ List.replicate 34 0) := by
  have refused : Decompressor.decompressWithBitLen ⟨wrapperContext, none⟩ (receivingPosition .up)
      ([0x36, 0, 0, 0, 0, 0, 0x10] ++ List.replicate 34 0) 324 =
      packetError "IPv6" "payload length exceeds available bytes" := by
    decide +kernel
  refine ⟨⟨wrapperContext, ⟨[⟨some ⟨3, 4⟩, some 0, []⟩]⟩⟩,
    ⟨[0x36, 0, 0, 0, 0, 0, 0x10] ++ List.replicate 34 0, 324, ⟨3, 4⟩⟩, wrapperContext_loaded, rfl,
    by decide +kernel, rfl, ?_⟩
  rw [refused]
  exact packetError_ne_ok _ _ _

end SchcCore
