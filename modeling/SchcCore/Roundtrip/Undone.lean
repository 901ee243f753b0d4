import SchcCore.Roundtrip.Received

/- Compression undone. Where a provider answers with what the sender read and the entries give
   their values back, the receiver returns the packet exactly when no started header is left
   incomplete and a checksum that no entry names is the computed one. -/
namespace SchcCore
open Outcome Bytes BitList FieldStore

/- What the receiver has for an entry. -/

/-- The provider answers each query for an interface identifier with the bytes that the sender
    stored for the entry. -/
def SuppliesStored (provider : Option ExternalValueProvider) (rule : Rule) (direction : Direction)
    (fields : FieldStore) : Prop :=
  ∀ stored ∈ fields, ∀ entry ∈ rule.active direction, entry.entryIndex = stored.1.entryIndex →
    entry.action = .deviceIid ∨ entry.action = .appIid →
      ∃ answer, provider = some answer ∧
        answer entry.field (stored.1.scope.orient direction) stored.2.bitLen = .ok stored.2.bytes

/-- An entry has the receiver end up with a value as long as the sender's: a target is as long where
    no length is announced, so is the table entry that an index stands for, and an identifier from
    outside has a length that the rule knows. -/
structure FieldRule.GivesBack (entry : FieldRule) (value : FieldValue) : Prop where
  target : entry.action = .notSent →
    entry.length = .variableBytes ∨ entry.length = .variableBits →
      ∀ bytes, entry.target = .bytes bytes → value.bitLen = 8 * bytes.length
  mapped : entry.action = .mappingSent → ∀ values, entry.target = .mapping values →
    ∀ (i : Nat) bytes, values[i]? = some bytes → denotes value bytes →
      (∀ (j : Nat) other, j < i → values[j]? = some other → ¬ denotes value other) →
      value.bitLen = 8 * bytes.length
  supplied : entry.action = .deviceIid ∨ entry.action = .appIid →
    entry.length ≠ .variableBytes ∧ entry.length ≠ .variableBits

/-- Every stored value is given back, and no length refers to a field that is computed. -/
structure Rule.GivesBack (rule : Rule) (direction : Direction) (fields : FieldStore) : Prop where
  previous : ∀ entry ∈ rule.active direction, ∀ i unit,
    entry.length = .fromPreviousField i unit →
      ∀ other ∈ rule.active direction, other.entryIndex = i → other.action ≠ .compute
  values : ∀ stored ∈ fields, ∀ entry ∈ rule.active direction,
    entry.entryIndex = stored.1.entryIndex → entry.GivesBack stored.2

/-- What restores the values gives them back. -/
theorem Rule.Restores.givesBack {rule : Rule} {direction : Direction}
    {provider : Option ExternalValueProvider} {fields : FieldStore}
    (restores : rule.Restores direction provider fields) : rule.GivesBack direction fields := by
  refine ⟨restores.previous, fun stored inside entry listed same => ?_⟩
  have own := restores.values stored inside entry listed same
  exact ⟨own.whole, own.mapped, fun action =>
    ⟨(own.supplied action).1, (own.supplied action).2.1⟩⟩

/-- An interface identifier has 64 bits. -/
theorem ReadsFrom.identifier {p : Ipv6Packet} {direction : Direction} {field : FieldRef}
    {scope : PacketScope} {value : FieldValue} (read : ReadsFrom p direction field scope value)
    (named : field = .ipv6 (.known .ipv6DevIid) ∨ field = .ipv6 (.known .ipv6AppIid)) :
    value.bitLen = 64 := by
  obtain ⟨parse, bitLen, coapPresent, state, rfl, extracted⟩ := read
  rw [extractField, bind_eq_ok] at extracted
  obtain ⟨source, -, extracted⟩ := extracted
  dsimp only at extracted
  rcases named with named | named
  · rw [named] at extracted
    simp only [extractIpv6Field, bind_eq_ok] at extracted
    obtain ⟨ipv6, -, extracted⟩ := extracted
    exact FieldValue.bitLen_fromU64 extracted
  · rw [named] at extracted
    simp only [extractIpv6Field, bind_eq_ok] at extracted
    obtain ⟨ipv6, -, extracted⟩ := extracted
    exact FieldValue.bitLen_fromU64 extracted

/-- Whole bytes that the provider answers are the value that has them. -/
theorem externalValue_stored {entry : FieldRule} {direction : Direction} {value : FieldValue}
    {answer : ExternalValueProvider} (whole : value.bitLen = value.bytes.length * 8)
    (answered : answer entry.field direction value.bitLen = .ok value.bytes) :
    externalValue entry value.bitLen direction (some answer) = .ok value := by
  have bits : value.bits = ofBytes value.bytes := by
    rw [FieldValue.bits, List.take_of_length_le]
    rw [length_ofBytes, whole]
    omega
  rw [externalValue]
  dsimp only
  rw [answered]
  dsimp only
  rw [if_neg (not_not.mpr value.size), whole, bytesAsValue_whole, ← bits, FieldValue.ofBits_bits]

section
variable {ctx : RuleContext} (loaded : ctx.Loaded) {rule : Rule}
  (member : rule ∈ ctx.rules.rules) {direction : Direction} {p : Ipv6Packet}
  {last : CompressionState}
  (ran : runEntries p.bytes direction rule.fields .initial = .ok (some last))
include loaded member ran

/-- The entry that a stored value came from. -/
theorem entry_of_stored {stored : FieldKey × FieldValue} (inside : stored ∈ last.fields)
    {entry : FieldRule} (listed : entry ∈ rule.fields)
    (same : entry.entryIndex = stored.1.entryIndex) :
    entry.field = stored.1.field ∧ ∃ own, matchesBranch stored.2 entry.branch = .ok (some own) := by
  have indexed := loaded.indexed member
  rcases storedBy_of_run ran stored inside with none | ⟨other, listed', -, index, own, judged⟩
  · cases none
  obtain rfl : other = entry := indexed other listed' entry listed (index.trans same.symm)
  refine ⟨?_, own, judged⟩
  obtain ⟨source, listed', index', named⟩ := sources_of_run ran stored inside
  obtain rfl : source = other := indexed source listed' other listed (index'.trans index.symm)
  exact named

/-- With a provider that answers as the sender read, what the receiver has for the entries are the
    values stored exactly when the entries give them back. -/
theorem Rule.restores_iff_givesBack
    (equal : ∀ entry ∈ rule.active direction, entry.action = .notSent → entry.matching = .equal)
    {provider : Option ExternalValueProvider}
    (supplies : SuppliesStored provider rule direction last.fields) :
    rule.Restores direction provider last.fields ↔ rule.GivesBack direction last.fields := by
  constructor
  · exact Rule.Restores.givesBack
  · intro gives
    refine ⟨gives.previous, fun stored inside entry listed same => ?_⟩
    have own := gives.values stored inside entry listed same
    have mine := (mem_active.mp listed).1
    obtain ⟨named, matched, judged⟩ := entry_of_stored loaded member ran inside mine same
    refine ⟨fun action => matchesBranch_equal _ (equal entry listed action) judged, own.target,
      own.mapped, fun action => ?_⟩
    have fixed := own.supplied action
    obtain ⟨answer, rfl, answered⟩ := supplies stored inside entry listed same action
    have valid := (loaded.valid.rules rule member).fields entry mine
    have identifier : stored.1.field = .ipv6 (.known .ipv6DevIid) ∨
        stored.1.field = .ipv6 (.known .ipv6AppIid) := by
      rw [← named]
      exact action.imp valid.deviceIid valid.appIid
    have plain : stored.1.field.isCoapOption = false := by
      rcases identifier with same | same <;> rw [same] <;> rfl
    have gathered := (Gathered.initial p direction).run ran
    have wide := (gathered.read stored inside plain).identifier identifier
    have whole : stored.2.bitLen = stored.2.bytes.length * 8 := by
      rw [stored.2.size, wide]
    exact ⟨fixed.1, fixed.2, externalValue_stored whole answered⟩

end
/- What the sender computed itself. -/

/-- The checksums that were stored and are not sent are those that the receiver computes. -/
structure ElidesOwn (p : Ipv6Packet) (fields sent : FieldStore) : Prop where
  outer : fields.containsFieldScope (checksumField p.nextHeader) .outer →
    sent.containsFieldScope (checksumField p.nextHeader) .outer = false → p.Checksummed
  embedded : fields.containsFieldScope (.udp (.known .udpChecksum)) .embedded →
    sent.containsFieldScope (.udp (.known .udpChecksum)) .embedded = false →
      ∀ m e, Icmpv6Message.parse p.payload = .ok m → Ipv6Packet.parse m.payload = .ok e →
        e.Checksummed

section
variable {p : Ipv6Packet} {fields sent : FieldStore}

/-- What is sent was stored. -/
theorem Elides.stored (elides : Elides fields sent) {field : FieldRef} {scope : PacketScope}
    (present : sent.containsFieldScope field scope) : fields.containsFieldScope field scope := by
  obtain ⟨value, first⟩ := Option.isSome_iff_exists.mp present
  obtain ⟨stored, member, named, placed, -⟩ := stored_of_first first
  unfold FieldStore.containsFieldScope FieldStore.firstByFieldScope
  rw [List.findSome?_isSome_iff]
  exact ⟨stored, elides.within stored member, by rw [if_pos ⟨named, placed⟩]; rfl⟩

theorem ElidesOwn.sumsEmbedded (own : ElidesOwn p fields sent) (elides : Elides fields sent) :
    SumsEmbedded p sent ↔ SumsEmbedded p fields := by
  have version : sent.containsFieldScope (.ipv6 (.known .ipv6Version)) .embedded =
      fields.containsFieldScope (.ipv6 (.known .ipv6Version)) .embedded :=
    elides.containsFieldScope rfl .embedded
  unfold SumsEmbedded
  rw [version]
  constructor
  · intro sums present m e parsed carries
    exact (sums present m e parsed carries).imp_left elides.stored
  · intro sums present m e parsed carries
    rcases sums present m e parsed carries with stored | summed
    · by_cases kept : sent.containsFieldScope (.udp (.known .udpChecksum)) .embedded
      · exact .inl kept
      · exact .inr (own.embedded stored (by simpa using kept) m e parsed carries)
    · exact .inr summed

end

/- The verdict. -/

section
variable {ctx : RuleContext} (loaded : ctx.Loaded) {c : Compressor}
  (made : Compressor.new ctx = .ok c) {direction : Direction} {packet : List UInt8}
  {datagram : CompressedDatagram} (done : c.compress direction packet = .ok datagram) {rule : Rule}
  (member : rule ∈ ctx.rules.rules) (selected : rule.id = datagram.ruleId)
  (entries : rule.fields ≠ [])
include loaded made done member selected entries

/-- A rule with entries compresses IPv6 packets only, and those for which its entries run through. -/
theorem reached_of_selected :
    ∃ (p : Ipv6Packet) (state : CompressionState), p.bytes = packet ∧
      c.ReachesEnd packet direction rule state := by
  have valid := loaded.valid
  have shared := reachesEnd_shared loaded member made packet direction
  obtain ⟨rfl, built⟩ := Compressor.new_built made
  have fit := fun other listed => (valid.rules other listed).id
  have same : ∀ other ∈ c.context.rules.rules, other.id = datagram.ruleId → other = rule := by
    intro other listed names
    exact PrefixCode.word_unique valid.prefixFree listed member (List.prefix_refl _)
      (by rw [names, selected])
  rcases Compressor.compress_ok fit built done with ⟨k, other, state, ⟨p, parsed⟩, own⟩ |
    ⟨k, other, placed, -, -, empty, written⟩
  · have listed := List.mem_of_getElem? own.stands.placed
    obtain ⟨w, shape, -⟩ := leafCandidate_carries (fit other listed) own.made
    cases shape
    obtain rfl := same other listed rfl
    exact ⟨p, state, Ipv6Packet.parse_eq_ok.mp parsed, (shared state).mpr own.ran⟩
  · have listed := List.mem_of_getElem? placed
    obtain ⟨w, written', -⟩ := noCompressionCandidate_ok (fit other listed) k packet
    rw [written'] at written
    cases written
    obtain rfl := same other listed rfl
    exact absurd empty entries

end

/-- A rule's end is reached with one state. -/
theorem Compressor.ReachesEnd.unique {ctx : RuleContext} (loaded : ctx.Loaded) {c : Compressor}
    (made : Compressor.new ctx = .ok c) {rule : Rule} (member : rule ∈ ctx.rules.rules)
    {packet : List UInt8} {direction : Direction} {state other : CompressionState}
    (ended : c.ReachesEnd packet direction rule state)
    (ended' : c.ReachesEnd packet direction rule other) : other = state := by
  have shared := reachesEnd_shared loaded member made packet direction
  have same := ((shared other).mp ended').symm.trans ((shared state).mp ended)
  exact Option.some.inj (Except.ok.inj same)

/- The hypotheses at one context's UDP rule. -/

theorem udpRule_equal :
    ∀ entry ∈ udpRule.active .down, entry.action = .notSent → entry.matching = .equal := by
  decide +kernel

theorem udpRule_supplies (fields : FieldStore) : SuppliesStored none udpRule .down fields := by
  have apart : ∀ entry ∈ udpRule.active .down,
      ¬ (entry.action = .deviceIid ∨ entry.action = .appIid) := by decide +kernel
  exact fun _ _ entry listed _ action => absurd action (apart entry listed)

theorem udpRule_givesBack {packet : List UInt8} {state : CompressionState}
    (ran : runEntries packet .down udpRule.fields .initial = .ok (some state)) :
    udpRule.GivesBack .down state.fields := (udpRule_restores ran).givesBack

end SchcCore
