import SchcCore.Decompress.Safety
import SchcCore.Roundtrip.Received
import SchcCore.Runtime.Node

/- A packet that crosses a link: one node encodes it into a frame, and the node at the other end
   decodes the bytes of the frame without knowing where the bits end. -/
namespace SchcCore
open Outcome BitList

/- Decoding the bytes of a frame. -/

theorem Canonical.permissible {bytes : List UInt8} {bitLen : Nat} (canonical : Canonical bytes bitLen) :
    Permissible bytes bitLen := by
  have size := canonical.size
  refine ⟨by omega, by omega, fun bit member => ?_⟩
  rw [canonical.clear] at member
  exact List.eq_of_mem_replicate member

namespace Decompressor
variable {d : Decompressor} {position : Position} {compressed : List UInt8}

/-- What padded decoding returns, exact decoding returns at one of the bit lengths tried. -/
theorem decompressDetailed_ok {a : DecompressedDatagram}
    (returned : d.decompressDetailed position compressed = .ok a) :
    ∃ n, Permissible compressed n ∧ d.decompressWithBitLenDetailed position compressed n = .ok a := by
  simp only [decompressDetailed, bind_eq_ok] at returned
  obtain ⟨last, tried, selected⟩ := returned
  unfold selectTrial at selected
  split at selected
  · cases selected
  · rw [bind_eq_ok] at selected
    obtain ⟨n, -, picked⟩ := selected
    cases search : last.successes.find? (fun success => success.1 = n) with
    | none => simp [search] at picked
    | some success =>
      obtain ⟨m, packet⟩ := success
      simp only [search, Except.ok.injEq] at picked
      subst picked
      rcases (tryPaddings_ok tried m packet).mp (List.mem_of_find?_eq_some search) with before | made
      · simp at before
      · exact ⟨m, (tried_iff m).mp made.1, made.2⟩

/-- Where one bit length frames the datagram, padded decoding returns what decoding at it does. -/
theorem decompressDetailed_framed (valid : d.context.Valid) {n : Nat}
    (permissible : Permissible compressed n) {frame : Frame}
    (read : d.readFrame position compressed n = .ok frame) (a : DecompressedDatagram) :
    d.decompressDetailed position compressed = .ok a ↔
      frame.finish (inverseDirection position) = .ok a := by
  have exact : d.decompressWithBitLenDetailed position compressed n =
      frame.finish (inverseDirection position) := by
    rw [decompress_eq_finish, read, ok_bind]
  constructor
  · intro returned
    obtain ⟨m, permissible', decoded⟩ := decompressDetailed_ok returned
    obtain ⟨other, read'⟩ := framed_of_decoded decoded
    obtain rfl := framed_unique valid permissible permissible' read read'
    rw [← exact, decoded]
  · intro finished
    exact decompressDetailed_found valid permissible (exact.trans finished)

/-- A datagram that frames fields without nested errors is decoded or refused, at any bit length. -/
theorem safe_framed (valid : d.context.Valid) {n : Nat} (permissible : Permissible compressed n)
    {frame : Frame} (read : d.readFrame position compressed n = .ok frame)
    (flat : frame.overflows = false) : Safe (d.decompressDetailed position compressed) := by
  apply decompressDetailed_returns.returns.mpr
  rintro ⟨m, permissible', other, read', overflows⟩
  obtain rfl := framed_unique valid permissible permissible' read read'
  rw [read] at read'
  cases read'
  rw [flat] at overflows
  cases overflows

end Decompressor

def Frame.rule : Frame → Rule
  | .whole rule _ => rule
  | .coded rule _ _ => rule

theorem Frame.finish_ruleId {frame : Frame} {direction : Direction} {a : DecompressedDatagram}
    (finished : frame.finish direction = .ok a) : a.ruleId = frame.rule.id := by
  cases frame with
  | whole rule packet =>
    simp only [Frame.finish, bind_eq_ok] at finished
    obtain ⟨_, -, same⟩ := finished
    cases same
    rfl
  | coded rule fields suffix =>
    simp only [Frame.finish, bind_eq_ok] at finished
    obtain ⟨_, -, same⟩ := finished
    cases same
    rfl

/- What a frame was made of. -/

/-- A rule that carries packets as they are. -/
def Rule.IsPlain (rule : Rule) : Prop := rule.nature = .noCompression ∨ rule.fields = []

theorem readWhole_bytes {reader : BitReader} {packet : List UInt8}
    (here : reader.unread = ofBytes packet) : readWhole reader = .ok packet := by
  have remaining : reader.remaining = 8 * packet.length := by
    rw [← BitReader.length_unread, here, length_ofBytes]
  have aligned : ¬ 8 * packet.length % 8 ≠ 0 := by omega
  have bytes : reader.unread = ofBytes packet ++ [] := by rw [here, List.append_nil]
  simp only [readWhole, remaining, aligned, ↓reduceIte, BitReader.readBytesPadded_bytes bytes,
    ok_bind]

/-- What a packet meets that comes back from the datagram a rule made of it. -/
def Rule.Returns (rule : Rule) (direction : Direction) (p : Ipv6Packet) (fields : FieldStore) :
    Prop :=
  (rule.IsPlain ∧ validatePacketLengths p.bytes = .ok ()) ∨
    (¬ rule.IsPlain ∧ Rebuildable p direction fields (fields.withoutComputed rule) ∧
      SumsEmbedded p (fields.withoutComputed rule) ∧ SumsOuter p (fields.withoutComputed rule))

/-- A rule that codes a packet as the receiver decodes it. -/
structure Rule.Codes (rule : Rule) (ctx : RuleContext) (c : Compressor) (direction : Direction)
    (packet : List UInt8) (provider : Option ExternalValueProvider) (state : CompressionState) :
    Prop where
  alike : rule.NumberedAlike ctx.rules.rules direction
  ended : c.ReachesEnd packet direction rule state
  restores : rule.Restores direction provider state.fields

/-- No run stores an ICMPv6 field of the embedded packet. -/
theorem flat_of_run {packet : List UInt8} {direction : Direction} {rule : Rule}
    {last : CompressionState}
    (ran : runEntries packet direction rule.fields .initial = .ok (some last)) :
    FieldStore.Flat last.fields := by
  have steps : ∀ entries (state : CompressionState), FieldStore.Flat state.fields →
      runEntries packet direction entries state = .ok (some last) →
        FieldStore.Flat last.fields := by
    intro entries
    induction entries with
    | nil =>
      intro state flat ended
      cases ended
      exact flat
    | cons entry entries ih =>
      intro state flat ended
      obtain ⟨next, first, rest⟩ := runEntries_cons.mp ended
      apply ih next ?_ rest
      unfold advance at first
      split at first
      · cases first
        exact flat
      · exact flat_of_traverseBranch flat first
  exact steps rule.fields .initial (fun stored member => by simp [CompressionState.initial] at member)
    ran

section
variable {ctx : RuleContext} (loaded : ctx.Loaded) {c : Compressor}
  (made : Compressor.new ctx = .ok c) {direction : Direction} {packet : List UInt8}
  {datagram : CompressedDatagram} (done : c.compress direction packet = .ok datagram) {rule : Rule}
  (member : rule ∈ ctx.rules.rules) (selected : rule.id = datagram.ruleId)
include loaded made done member selected

/-- Framing a datagram of a plain rule yields the packet. -/
theorem framed_whole (plain : rule.IsPlain) (provider : Option ExternalValueProvider)
    (position : Position) :
    Decompressor.readFrame ⟨ctx, provider⟩ position datagram.bytes datagram.bitLen =
      .ok (.whole rule packet) := by
  have valid := loaded.valid
  obtain ⟨bits, inside, natures⟩ := Compressor.compress_whole valid made done member selected plain
  have spelled : meaningfulBits datagram.bytes datagram.bitLen = rule.id.bits ++ ofBytes packet :=
    bits
  have found := selectRule_of_starts (fun other listed => (valid.rules other listed).id)
    valid.prefixFree member inside (by rw [spelled]; exact List.prefix_append _ _)
  have rest : (readerAt datagram.bytes datagram.bitLen inside rule.id.bitLen).unread =
      ofBytes packet := by
    rw [unread_readerAt, spelled, ← rule.id.length_bits, List.drop_left]
  have read := readWhole_bytes rest
  rw [Decompressor.readFrame, found, ok_bind]
  dsimp only
  rcases natures with nature | ⟨empty, nature | nature⟩
  · simp only [Decompressor.readBody, nature, read, Except.map]
  · simp only [Decompressor.readBody, nature, empty, List.isEmpty_nil, ↓reduceIte, read, Except.map]
  · simp only [Decompressor.readBody, nature, empty, List.isEmpty_nil, ↓reduceIte, read, Except.map]

/-- A rule that is not plain codes what it sends. -/
theorem codes_of_selected (coded : ¬ rule.IsPlain) :
    rule.nature = .compression ∨ rule.nature = .management := by
  have valid := loaded.valid
  obtain ⟨rfl, built⟩ := Compressor.new_built made
  have fit := fun other listed => (valid.rules other listed).id
  have same : ∀ other ∈ c.context.rules.rules, other.id = datagram.ruleId → other = rule := by
    intro other listed names
    exact PrefixCode.word_unique valid.prefixFree listed member (List.prefix_refl _)
      (by rw [names, selected])
  rcases Compressor.compress_ok fit built done with ⟨k, other, state, -, own⟩ |
    ⟨k, other, placed, -, nature, -, written⟩
  · have listed := List.mem_of_getElem? own.stands.placed
    obtain ⟨w, shape, body, bits, carries⟩ := leafCandidate_carries (fit other listed) own.made
    cases shape
    obtain rfl := same other listed rfl
    cases carries with
    | whole natures =>
      rcases natures with plain | ⟨empty, natures⟩
      · exact absurd (.inl plain) coded
      · exact natures
    | residue natures => exact natures
  · have listed := List.mem_of_getElem? placed
    obtain ⟨w, written', bits⟩ := noCompressionCandidate_ok (fit other listed) k packet
    rw [written'] at written
    cases written
    obtain rfl := same other listed rfl
    exact absurd (.inl nature) coded

/-- The frame of a datagram nests no errors, names the rule, and finishes in the packet exactly when
    the rule returns it. -/
theorem frame_of_selected {p : Ipv6Packet} (bytes : p.bytes = packet)
    {provider : Option ExternalValueProvider} {state : CompressionState}
    (coded : ¬ rule.IsPlain → rule.Codes ctx c direction packet provider state) :
    ∃ frame, Decompressor.readFrame ⟨ctx, provider⟩ (receivingPosition direction) datagram.bytes
        datagram.bitLen = .ok frame ∧ frame.overflows = false ∧
      (∀ a, frame.finish direction = .ok a → a.ruleId = rule.id) ∧
      (frame.finish direction = .ok ⟨packet, rule.id⟩ ↔ rule.Returns direction p state.fields) := by
  subst bytes
  by_cases plain : rule.IsPlain
  · refine ⟨_, framed_whole loaded made done member selected plain provider _, rfl,
      fun a finished => Frame.finish_ruleId finished, ?_⟩
    simp only [Rule.Returns, plain, not_true_eq_false, false_and, or_false, true_and, Frame.finish,
      bind_eq_ok]
    constructor
    · rintro ⟨⟨⟩, lengths, -⟩
      exact lengths
    · intro lengths
      exact ⟨(), lengths, trivial⟩
  · have codes := codes_of_selected loaded made done member selected plain
    have own := coded plain
    have compresses : rule.Compresses ctx direction p state datagram :=
      ⟨member, codes, fun empty => plain (.inr empty), own.alike, selected, c, made, done, own.ended⟩
    obtain ⟨suffix, found, bits, inside⟩ := compresses.spelled loaded
    have read := compresses.framed loaded own.restores found bits inside
    have exact := compresses.returned_iff loaded own.restores
    rw [Decompressor.decompress_eq_finish, read, ok_bind, inverseDirection_receivingPosition] at exact
    have flat : nestsErrors (state.fields.withoutComputed rule) = false := by
      apply nestsErrors_of_flat
      intro stored sent
      exact flat_of_run (compresses.ran loaded) stored (List.mem_filter.mp sent).1
    refine ⟨_, read, ?_, fun a finished => Frame.finish_ruleId finished, ?_⟩
    · rw [Frame.overflows]
      split <;> simp [rebuildOverflows, flat]
    rw [exact]
    simp only [Rule.Returns, plain, not_false_eq_true, false_and, true_and, false_or]

omit member selected in
/-- A compressed datagram is canonical, so its bytes alone give its bits back. -/
theorem permissible_of_done : Permissible datagram.bytes datagram.bitLen := by
  obtain ⟨rfl, built⟩ := Compressor.new_built made
  have fit := fun other listed => (loaded.valid.rules other listed).id
  exact (Compressor.compress_framed fit built done).canonical.permissible

end

/-- Decompression, told the bit length or left to find it, returns the packet that was compressed
    exactly when the lengths of a packet sent whole hold, or, of a packet sent as fields, no
    started header is left incomplete and the checksums left to be computed are its own. -/
theorem decompression_undoes_compression_iff {ctx : RuleContext} (loaded : ctx.Loaded)
    {c : Compressor} (made : Compressor.new ctx = .ok c) {direction : Direction} {p : Ipv6Packet}
    {datagram : CompressedDatagram} (done : c.compress direction p.bytes = .ok datagram)
    {rule : Rule} (member : rule ∈ ctx.rules.rules) (selected : rule.id = datagram.ruleId)
    {provider : Option ExternalValueProvider} {state : CompressionState}
    (coded : ¬ rule.IsPlain → rule.Codes ctx c direction p.bytes provider state) :
    (Decompressor.decompressWithBitLenDetailed ⟨ctx, provider⟩ (receivingPosition direction)
        datagram.bytes datagram.bitLen = .ok ⟨p.bytes, rule.id⟩ ↔
      rule.Returns direction p state.fields) ∧
    (Decompressor.decompressDetailed ⟨ctx, provider⟩ (receivingPosition direction) datagram.bytes =
        .ok ⟨p.bytes, rule.id⟩ ↔
      rule.Returns direction p state.fields) := by
  obtain ⟨frame, read, -, -, returns⟩ := frame_of_selected loaded made done member selected rfl coded
  constructor
  · rw [Decompressor.decompress_eq_finish, read, ok_bind, inverseDirection_receivingPosition, returns]
  · have permissible := permissible_of_done loaded made done
    rw [Decompressor.decompressDetailed_framed loaded.valid permissible read,
      inverseDirection_receivingPosition, returns]

theorem decompression_undoes_compression_at_hello :
    Decompressor.decompressWithBitLenDetailed ⟨udpContext, none⟩ .device [2, 0x68, 0x69] 24 =
        .ok ⟨helloPacket.bytes, ⟨2, 8⟩⟩ ∧
      Decompressor.decompressDetailed ⟨udpContext, none⟩ .device [2, 0x68, 0x69] =
        .ok ⟨helloPacket.bytes, ⟨2, 8⟩⟩ := by
  have ran : runEntries helloPacket.bytes .down udpRule.fields .initial = .ok (some helloState) := by
    decide +kernel
  have compresses : udpRule.Compresses udpContext .down helloPacket helloState
      ⟨[2, 0x68, 0x69], 24, ⟨2, 8⟩⟩ := udpRule_compresses ran rfl (by decide +kernel)
  obtain ⟨c, made, done, ended⟩ := compresses.done
  have returns : udpRule.Returns .down helloPacket helloState.fields := by
    have coded : ¬ udpRule.IsPlain := by
      rw [Rule.IsPlain]
      decide +kernel
    have covers : Covers helloPacket (helloState.fields.withoutComputed udpRule) :=
      .udp (by decide) (UdpDatagram.parse_bytes helloDatagram) (by decide +kernel)
        (by decide +kernel)
    obtain ⟨gathered, elides⟩ := compresses.gathered udpContext_loaded
    have summed : helloPacket.Checksummed := by
      unfold Ipv6Packet.Checksummed
      decide +kernel
    exact .inr ⟨coded, .inr covers, covers.sumsEmbedded (elides.faithful gathered.read), .inr summed⟩
  obtain ⟨exact, padded⟩ := decompression_undoes_compression_iff udpContext_loaded made done
    compresses.member rfl fun _ => ⟨compresses.alike, ended, udpRule_restores ran⟩
  exact ⟨exact.mpr returns, padded.mpr returns⟩

/- Two nodes. -/

/-- The end of a link across from a node. -/
def NodeRole.peer : NodeRole → NodeRole
  | .core => .device
  | .device => .core

theorem NodeRole.position_peer (role : NodeRole) :
    role.peer.position = receivingPosition role.direction := by
  cases role <;> rfl

/-- A node that was built over a rule context and a profile. -/
def LinkNode.Over (node : LinkNode) (ctx : RuleContext) (profile : DeviceProfile) : Prop :=
  Runtime.new node.runtime.deviceId ctx profile = .ok node.runtime

/-- A packet from one node to another over the bytes of a frame. -/
def transfer (sender receiver : LinkNode) (packet : List UInt8) : RuntimeResult DecodedResult := do
  let encoded ← sender.outbound packet
  receiver.inbound encoded.frame.bytes

theorem LinkNode.Over.compressor {node : LinkNode} {ctx : RuleContext} {profile : DeviceProfile}
    (built : node.Over ctx profile) : Compressor.new ctx = .ok node.runtime.compressor := by
  obtain ⟨c, made⟩ := Compressor.new_total ctx
  have runtime := built
  rw [LinkNode.Over, Runtime.new, made, fromCore, ok_bind] at runtime
  have same := congrArg Runtime.compressor (Except.ok.inj runtime)
  rw [made, ← same]

theorem LinkNode.Over.decompressor {node : LinkNode} {ctx : RuleContext} {profile : DeviceProfile}
    (built : node.Over ctx profile) :
    node.runtime.decompressor = ⟨ctx, some profile.value⟩ := by
  obtain ⟨c, made⟩ := Compressor.new_total ctx
  have runtime := built
  rw [LinkNode.Over, Runtime.new, made, fromCore, ok_bind] at runtime
  exact (congrArg Runtime.decompressor (Except.ok.inj runtime)).symm

theorem fromCore_eq_ok {α : Type} {x : Result α} {a : α} : fromCore x = .ok a ↔ x = .ok a := by
  unfold fromCore
  split <;> simp

theorem safe_fromCore {α : Type} {x : Result α} (safe : Safe x) : Safe (fromCore x) := by
  intro site panicked
  unfold fromCore at panicked
  split at panicked
  · cases panicked
  · cases panicked
  · exact safe _ rfl

/-- What a node hands to the link is what its compressor returned. -/
theorem LinkNode.outbound_ok {node : LinkNode} {packet : List UInt8} {encoded : EncodedResult}
    (sent : node.outbound packet = .ok encoded) :
    node.runtime.compressor.compress node.role.direction packet =
      .ok ⟨encoded.frame.bytes, encoded.frame.bitLen, encoded.ruleId⟩ := by
  simp only [LinkNode.outbound_eq, bind_eq_ok, fromCore_eq_ok] at sent
  obtain ⟨⟨bytes, bitLen, ruleId⟩, compressed, frame, made, same⟩ := sent
  cases same
  cases accepted : SchcFrame.new bytes bitLen with
  | error error =>
    rw [accepted] at made
    cases made
  | ok other =>
    rw [accepted] at made
    cases made
    obtain ⟨rfl, rfl⟩ := SchcFrame.new_ok accepted
    exact compressed

/- Crossing the link. -/

/-- Two nodes over one rule context at the two ends of a link. -/
structure Linked (ctx : RuleContext) (profile : DeviceProfile) (sender receiver : LinkNode) :
    Prop where
  sends : ∃ own, sender.Over ctx own
  receives : receiver.Over ctx profile
  across : receiver.role = sender.role.peer

theorem Linked.compressor {ctx : RuleContext} {profile : DeviceProfile} {sender receiver : LinkNode}
    (linked : Linked ctx profile sender receiver) :
    Compressor.new ctx = .ok sender.runtime.compressor := by
  obtain ⟨own, built⟩ := linked.sends
  exact built.compressor

/-- The receiver returns what padded decoding makes of the bytes of the frame. -/
theorem Linked.transfer_iff {ctx : RuleContext} {profile : DeviceProfile}
    {sender receiver : LinkNode} (linked : Linked ctx profile sender receiver)
    {packet : List UInt8} {encoded : EncodedResult} (sent : sender.outbound packet = .ok encoded)
    (q : List UInt8) (id : RuleId) :
    transfer sender receiver packet = .ok ⟨q, id⟩ ↔
      Decompressor.decompressDetailed ⟨ctx, some profile.value⟩
        (receivingPosition sender.role.direction) encoded.frame.bytes = .ok ⟨q, id⟩ := by
  rw [transfer, sent, ok_bind, LinkNode.inbound_eq, linked.receives.decompressor, linked.across,
    NodeRole.position_peer]
  simp only [bind_eq_ok, fromCore_eq_ok]
  constructor
  · rintro ⟨⟨packet, ruleId⟩, decoded, same⟩
    cases same
    exact decoded
  · intro decoded
    exact ⟨_, decoded, rfl⟩

/-- The rules of a context restore what they send in a direction. -/
def RuleContext.Restores (ctx : RuleContext) (direction : Direction)
    (provider : Option ExternalValueProvider) : Prop :=
  ∀ rule ∈ ctx.rules.rules, rule.NumberedAlike ctx.rules.rules direction ∧
    (¬ rule.IsPlain → ∀ (p : Ipv6Packet) (last : CompressionState),
      runEntries p.bytes direction rule.fields .initial = .ok (some last) →
        rule.Restores direction provider last.fields)

/-- Loaded from JSON, entries that determine their values restore them, whatever the profile. -/
theorem RuleContext.restores_of_codable {file : RuleFile} {registry : SidRegistry}
    {ctx : RuleContext} (loaded : RuleContext.fromJson file registry = .ok ctx)
    {direction : Direction}
    (codable : ∀ rule ∈ ctx.rules.rules, ∀ entry ∈ rule.active direction,
      entry.Codable rule direction)
    (provider : Option ExternalValueProvider) : ctx.Restores direction provider := by
  intro rule member
  refine ⟨fromJson_numberedAlike loaded member direction, fun _ p last ran => ?_⟩
  exact Rule.restores_of_codable (.json file registry loaded) member ran (codable rule member) provider

/-- The rule that a datagram names ran to its end for the packet. -/
theorem ran_of_done {ctx : RuleContext} (loaded : ctx.Loaded) {c : Compressor}
    (made : Compressor.new ctx = .ok c) {direction : Direction} {p : Ipv6Packet}
    {datagram : CompressedDatagram} (done : c.compress direction p.bytes = .ok datagram) :
    ∃ rule ∈ ctx.rules.rules, rule.id = datagram.ruleId ∧ ∃ last,
      runEntries p.bytes direction (rule.lent ctx.rules.rules) .initial = .ok (some last) := by
  obtain ⟨rfl, built⟩ := Compressor.new_built made
  have fit := fun other listed => (loaded.valid.rules other listed).id
  rcases Compressor.compress_ok fit built done with ⟨k, rule, last, -, own⟩ |
    ⟨k, rule, placed, ⟨error, failed⟩, -⟩
  · have listed := List.mem_of_getElem? own.stands.placed
    obtain ⟨w, shape, -⟩ := leafCandidate_carries (fit rule listed) own.made
    cases shape
    exact ⟨rule, listed, rfl, last, own.ran⟩
  · rw [Ipv6Packet.parse_bytes] at failed
    cases failed

/-- The frame that the bytes of a sent packet are read as: it nests no errors, names the rule that
    ran, and finishes in the packet exactly when the rule returns it. -/
theorem Linked.framed {ctx : RuleContext} {profile : DeviceProfile} {sender receiver : LinkNode}
    (linked : Linked ctx profile sender receiver) (loaded : ctx.Loaded)
    (restores : ctx.Restores sender.role.direction (some profile.value)) {p : Ipv6Packet}
    {encoded : EncodedResult} (sent : sender.outbound p.bytes = .ok encoded) :
    ∃ rule ∈ ctx.rules.rules, rule.id = encoded.ruleId ∧ ∃ last,
      runEntries p.bytes sender.role.direction rule.fields .initial = .ok (some last) ∧ ∃ frame,
      Decompressor.readFrame ⟨ctx, some profile.value⟩ (receivingPosition sender.role.direction)
        encoded.frame.bytes encoded.frame.bitLen = .ok frame ∧ frame.overflows = false ∧
      (∀ a, frame.finish sender.role.direction = .ok a → a.ruleId = rule.id) ∧
      (frame.finish sender.role.direction = .ok ⟨p.bytes, rule.id⟩ ↔
        rule.Returns sender.role.direction p last.fields) := by
  have made := linked.compressor
  have done := LinkNode.outbound_ok sent
  obtain ⟨rule, member, selected, last, lent⟩ := ran_of_done loaded made done
  obtain ⟨alike, codes⟩ := restores rule member
  have ran : runEntries p.bytes sender.role.direction rule.fields .initial = .ok (some last) := by
    rw [← runEntries_same (sameRun_lent_iff.mpr alike)]
    exact lent
  have coded : ¬ rule.IsPlain → rule.Codes ctx sender.runtime.compressor sender.role.direction
      p.bytes (some profile.value) last := by
    intro fields
    exact ⟨alike, (reachesEnd_shared loaded member made p.bytes _ last).mpr lent,
      codes fields p last ran⟩
  exact ⟨rule, member, selected, last, ran,
    frame_of_selected loaded made done member selected rfl coded⟩

/-- What crossing the link comes to for a packet: it is decoded under the rule it was sent under or
    refused, and it is the packet that was sent exactly when the rule returns it. -/
theorem Linked.verdict {ctx : RuleContext} {profile : DeviceProfile} {sender receiver : LinkNode}
    (linked : Linked ctx profile sender receiver) (loaded : ctx.Loaded)
    (restores : ctx.Restores sender.role.direction (some profile.value)) {p : Ipv6Packet}
    {encoded : EncodedResult} (sent : sender.outbound p.bytes = .ok encoded) :
    ∃ rule ∈ ctx.rules.rules, rule.id = encoded.ruleId ∧ ∃ last,
      runEntries p.bytes sender.role.direction rule.fields .initial = .ok (some last) ∧
      Safe (transfer sender receiver p.bytes) ∧
      (∀ decoded, transfer sender receiver p.bytes = .ok decoded → decoded.ruleId = rule.id) ∧
      (transfer sender receiver p.bytes = .ok ⟨p.bytes, rule.id⟩ ↔
        rule.Returns sender.role.direction p last.fields) := by
  obtain ⟨rule, member, selected, last, ran, frame, read, flat, named, returns⟩ :=
    linked.framed loaded restores sent
  have permissible := encoded.frame.canonical.permissible
  have framed := fun a => Decompressor.decompressDetailed_framed
    (d := ⟨ctx, some profile.value⟩) loaded.valid permissible read a
  refine ⟨rule, member, selected, last, ran, ?_, ?_, ?_⟩
  · have safe := Decompressor.safe_framed (d := ⟨ctx, some profile.value⟩) loaded.valid permissible
      read flat
    rw [transfer, sent, ok_bind, LinkNode.inbound_eq, linked.receives.decompressor, linked.across,
      NodeRole.position_peer]
    exact safe_bind (safe_fromCore safe) fun _ _ => safe_ok _
  · intro decoded crossed
    have finished := (framed ⟨decoded.packet, decoded.ruleId⟩).mp
      ((linked.transfer_iff sent _ _).mp crossed)
    rw [inverseDirection_receivingPosition] at finished
    exact named _ finished
  · rw [linked.transfer_iff sent, framed, inverseDirection_receivingPosition, returns]

/-- The receiver decodes the bytes of a frame as it decodes the frame: finding out where the bits
    end is as good as being told. -/
theorem Linked.decodeDetailed_iff {ctx : RuleContext} {profile : DeviceProfile}
    {sender receiver : LinkNode} (linked : Linked ctx profile sender receiver) (loaded : ctx.Loaded)
    (restores : ctx.Restores sender.role.direction (some profile.value)) {p : Ipv6Packet}
    {encoded : EncodedResult} (sent : sender.outbound p.bytes = .ok encoded)
    (decoded : DecodedResult) :
    receiver.runtime.decodeDetailed receiver.runtime.deviceId receiver.role.inbound.1
        receiver.role.inbound.2 encoded.frame = .ok decoded ↔
      transfer sender receiver p.bytes = .ok decoded := by
  obtain ⟨q, id⟩ := decoded
  obtain ⟨rule, -, -, last, -, frame, read, -⟩ := linked.framed loaded restores sent
  have framed := Decompressor.decompressDetailed_framed (d := ⟨ctx, some profile.value⟩)
    loaded.valid encoded.frame.canonical.permissible read ⟨q, id⟩
  rw [linked.transfer_iff sent, framed, LinkNode.decodeDetailed_eq, linked.receives.decompressor,
    linked.across, NodeRole.position_peer, Decompressor.decompress_eq_finish, read, ok_bind]
  simp only [bind_eq_ok, fromCore_eq_ok]
  constructor
  · rintro ⟨⟨packet, ruleId⟩, finished, same⟩
    cases same
    exact finished
  · intro finished
    exact ⟨_, finished, rfl⟩

end SchcCore
