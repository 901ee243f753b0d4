import SchcCore.Compress.Matching
import SchcCore.Packet.Rebuild
import SchcCore.Rule.Typed

/- Compression never panics, and under a loaded context it never reports an ill-typed entry:
   first what one entry does, then a leaf, then the whole traversal. -/
namespace SchcCore
open Outcome BitList FieldStore

/- Extraction. -/

theorem sound_extractIpv6Field (packet : List UInt8) (direction : Direction) (name : FieldName) :
    Sound (extractIpv6Field packet direction name) := by
  refine within_bind (Ipv6Packet.sound_parse _) fun ipv6 _ => ?_
  dsimp only
  split <;> first | exact FieldValue.sound_fromU64 _ _ | exact sound_packetError _ _

theorem sound_extractUdpField (udp : UdpDatagram) (direction : Direction) (name : FieldName) :
    Sound (extractUdpField udp direction name) := by
  unfold extractUdpField
  dsimp only
  split
  · exact within_ite (fun _ => FieldValue.sound_fromU64 _ _) fun _ => FieldValue.sound_fromU64 _ _
  · exact within_ite (fun _ => FieldValue.sound_fromU64 _ _) fun _ => FieldValue.sound_fromU64 _ _
  · exact FieldValue.sound_fromU64 _ _
  · exact FieldValue.sound_fromU64 _ _
  · exact FieldValue.sound_fromBytes _ _
  · exact sound_packetError _ _

theorem sound_extractCoapToken {coap : List UInt8} {message : CoapMessage}
    (header : CoapMessage.Header coap message) (bitLen : Option Nat) :
    Sound (extractCoapToken coap bitLen) := by
  have long := header.long
  cases bitLen with
  | none => exact sound_text (by decide +kernel)
  | some bitLen =>
    refine within_ite (fun _ => sound_packetError _ _) fun _ => ?_
    rw [index_eq (by omega), ok_bind]
    by_cases other : bitLen / 8 ≠ (Bytes.byteAt coap 0 &&& 0x0f).toNat
    · rw [if_pos other]
      exact sound_packetError _ _
    · have length := header.tokenLength
      rw [if_neg other]
      refine within_ite (fun _ => sound_packetError _ _) fun _ => ?_
      rw [slice_eq (by omega) (by omega), ok_bind]
      exact sound_bytesAsValue _ _

theorem sound_extractCoapField (coap : List UInt8) (name : FieldName) (bitLen : Option Nat) :
    Sound (extractCoapField coap name bitLen) := by
  refine within_bind (CoapMessage.sound_parse coap) fun message parsed => ?_
  have header := CoapMessage.header_of_parse parsed
  have long := header.long
  split
  · rw [index_eq (by omega), ok_bind]
    exact FieldValue.sound_fromU64 _ _
  · rw [index_eq (by omega), ok_bind]
    exact FieldValue.sound_fromU64 _ _
  · rw [index_eq (by omega), ok_bind]
    exact FieldValue.sound_fromU64 _ _
  · rw [index_eq (by omega), ok_bind]
    exact FieldValue.sound_fromU64 _ _
  · rw [index_eq (by omega), ok_bind, index_eq (by omega), ok_bind]
    exact FieldValue.sound_fromU64 _ _
  · exact sound_extractCoapToken header bitLen
  · exact FieldValue.sound_fromBytes _ _
  · exact sound_packetError _ _

theorem sound_extractIcmpv6Field (message : Icmpv6Message) (name : FieldName)
    (structured : Bool) : Sound (extractIcmpv6Field message name structured) := by
  have echo : ∀ start half reason, Sound (extractEchoField message start half reason) :=
    fun _ _ _ => within_dite (fun _ => sound_packetError _ _) fun _ => FieldValue.sound_fromU64 _ _
  have word : ∀ expected, Sound (extractTypeWord message expected) :=
    fun _ => within_dite (fun _ => sound_packetError _ _) fun _ =>
      within_ite (fun _ => sound_packetError _ _) fun _ => FieldValue.sound_fromBytes _ _
  unfold extractIcmpv6Field
  dsimp only
  split
  · exact FieldValue.sound_fromU64 _ _
  · exact FieldValue.sound_fromU64 _ _
  · exact FieldValue.sound_fromU64 _ _
  · exact echo _ _ _
  · exact echo _ _ _
  · exact word _
  · exact word _
  · exact FieldValue.sound_fromBytes _ _
  · exact sound_packetError _ _

theorem sound_extractUnusedField (packet : List UInt8) : Sound (extractUnusedField packet) := by
  refine within_bind (sound_packetForScope _ _) fun source _ => ?_
  refine within_bind (Ipv6Packet.sound_parse _) fun ipv6 _ => ?_
  refine within_ite (fun _ => sound_packetError _ _) fun _ => ?_
  refine within_bind (Icmpv6Message.sound_parse _) fun icmp _ => ?_
  refine within_ite (fun _ => sound_packetError _ _) fun _ => ?_
  exact within_dite (fun _ => sound_packetError _ _) fun _ => FieldValue.sound_fromBytes _ _

theorem sound_extractGenericPayload (packet : List UInt8) (direction : Direction)
    (coapPresent : Bool) : Sound (extractGenericPayload packet direction coapPresent) := by
  refine within_bind (sound_packetForScope _ _) fun source _ => ?_
  refine within_bind (Ipv6Packet.sound_parse _) fun ipv6 _ => ?_
  refine within_ite (fun _ => ?_) fun _ => within_ite (fun _ => ?_) fun _ => sound_packetError _ _
  · refine within_bind (UdpDatagram.sound_parse _) fun udp _ => ?_
    refine within_ite (fun _ => ?_) fun _ => FieldValue.sound_fromBytes _ _
    exact within_bind (CoapMessage.sound_parse _) fun _ _ => FieldValue.sound_fromBytes _ _
  · exact within_bind (Icmpv6Message.sound_parse _) fun _ _ => FieldValue.sound_fromBytes _ _

theorem sound_selectCoapOption (coap : CoapMessage) (number occurrence : Nat) :
    Sound (selectCoapOption coap number occurrence) := by
  unfold selectCoapOption
  dsimp only
  split
  · exact within_ok _
  · split
    · exact within_ite (fun _ => within_ok _) fun _ => within_fail nofun
    · exact within_fail nofun

theorem sound_outerCoap (packet : List UInt8) : Sound (outerCoap packet) :=
  within_bind (Ipv6Packet.sound_parse _) fun _ _ =>
    within_bind (UdpDatagram.sound_parse _) fun _ _ => CoapMessage.sound_parse _

theorem sound_extractField (packet : List UInt8) (direction : Direction) (parse : ParseStep)
    (bitLen : Option Nat) (scope : PacketScope) (coapPresent : Bool) (state : CompressionState) :
    Sound (extractField packet direction parse bitLen scope coapPresent state) := by
  refine within_bind (sound_packetForScope _ _) fun source _ => ?_
  dsimp only
  split
  · exact sound_extractIpv6Field _ _ _
  · exact within_bind (Ipv6Packet.sound_parse _) fun _ _ =>
      within_bind (UdpDatagram.sound_parse _) fun _ _ => sound_extractUdpField _ _ _
  · exact within_ite (fun _ => sound_packetError _ _) fun _ =>
      within_bind (Ipv6Packet.sound_parse _) fun _ _ =>
        within_bind (UdpDatagram.sound_parse _) fun _ _ => sound_extractCoapField _ _ _
  · refine within_ite (fun _ => sound_packetError _ _) fun _ => ?_
    refine within_bind (sound_outerCoap _) fun _ _ => within_ite (fun _ => within_fail nofun) ?_
    exact fun _ => within_bind (sound_selectCoapOption _ _ _) fun _ _ =>
      FieldValue.sound_fromBytes _ _
  · exact within_ite (fun _ => sound_packetError _ _) fun _ =>
      within_bind (Ipv6Packet.sound_parse _) fun _ _ =>
        within_bind (Icmpv6Message.sound_parse _) fun _ _ => sound_extractIcmpv6Field _ _ _
  · refine within_ite (fun _ => sound_packetError _ _) fun _ => ?_
    exact within_ite (fun _ => sound_text (by decide +kernel)) fun _ => sound_extractUnusedField _
  · exact sound_extractGenericPayload _ _ _
  · exact sound_packetError _ _
  · exact within_fail nofun

/- Matching. -/

theorem sound_selectMapping (field : FieldValue) (i : Nat) (values : List (List UInt8)) :
    Sound (selectMapping field i values) := by
  induction values generalizing i with
  | nil => exact within_ok _
  | cons bytes values ih =>
    exact within_bind (sound_bytesAsValue _ _) fun _ _ =>
      within_ite (fun _ => within_ok _) fun _ => ih (i + 1)

theorem sound_matchesBranch (field : FieldValue) (branch : Branch) :
    Sound (matchesBranch field branch) := by
  unfold matchesBranch
  split
  · exact within_bind (sound_targetAsValue _ _) fun _ _ =>
      within_ite (fun _ => within_ok _) fun _ => within_ok _
  · exact within_ok _
  · refine within_ite (fun _ => within_fail nofun) fun short => ?_
    refine within_bind (sound_targetAsValue _ _) fun target made => ?_
    cases target with
    | none => exact within_ok _
    | some target =>
      obtain ⟨bytes, -, read⟩ := targetAsValue_some made
      dsimp only
      rw [prefixBitsEqual_eq (by omega) (bitLen_bytesAsValue read).symm, ok_bind]
      exact within_ok _
  · split
    · exact within_bind (sound_selectMapping _ _ _) fun _ _ => within_ok _
    · exact within_ok _

theorem sound_searchCoapOption (number : Nat) (bitLen : Option Nat) (branch : Branch)
    (ordinal : Nat) (options : List CoapOption) :
    Sound (searchCoapOption number bitLen branch ordinal options) := by
  induction options generalizing ordinal with
  | nil => exact within_ok _
  | cons option options ih =>
    rw [searchCoapOption]
    refine within_ite (fun _ => ih _) fun _ => ?_
    refine within_bind (FieldValue.sound_fromBytes _ _) fun field _ => ?_
    refine within_ite (fun _ => ih _) fun _ => ?_
    refine within_bind (sound_matchesBranch _ _) fun matched _ => ?_
    cases matched with
    | none => exact ih _
    | some matched => exact within_ok _

theorem sound_matchEntry (packet : List UInt8) (direction : Direction) (branch : Branch)
    (bitLen : Option Nat) (scope : PacketScope) (state : CompressionState) :
    Sound (matchEntry packet direction branch bitLen scope state) := by
  refine within_ite (fun _ => ?_) fun _ => ?_
  · refine within_ite (fun _ => sound_packetError _ _) fun _ => ?_
    split
    · exact within_bind (sound_outerCoap _) fun _ _ => sound_searchCoapOption _ _ _ _ _
    · exact within_ok _
  · refine within_bind (sound_extractField _ _ _ _ _ _ _) fun field _ => ?_
    refine within_ite (fun _ => within_ok _) fun _ => ?_
    exact within_bind (sound_matchesBranch _ _) fun _ _ => within_ok _

/- Residue. -/

/-- What validation promises of the branch of an entry. -/
structure Branch.Typed (branch : Branch) : Prop where
  lsb : branch.action = .lsb → branch.matching.isMsb
  mappingSent : branch.action = .mappingSent → ∃ values, branch.target = .mapping values

theorem sound_writeLengthPrefix (writer : BitWriter) (field : FieldValue) (length : FieldLength) :
    Sound (writeLengthPrefix writer field length) := by
  unfold writeLengthPrefix
  split
  · exact within_ite (fun _ => sound_text (by decide +kernel)) fun _ =>
      sound_writeVariableLengthPrefix _ _
  · exact sound_writeVariableLengthPrefix _ _
  · exact within_ok _

/-- That no entry was selected is not an error about the entry's parts. -/
theorem sound_unselected {α : Type} :
    Sound (invalidResidue "mapping-sent requires a selected mapping entry" : Result α) := by
  refine within_fail fun | .illTyped ill => ?_
  generalize same : SchcError.invalidResidue _ = error at ill
  cases ill with
  | notSent field =>
    injection same with same
    have front := congrArg (fun text => text.toList.take 8) same
    rw [String.toList_append, String.toList_append, List.append_assoc,
      List.take_append_of_le_length (by decide +kernel)] at front
    revert front
    decide +kernel
  | lsbTarget => simp at same
  | lsbOperator => simp at same
  | mappingTarget => simp at same

theorem sound_writeResidue {writer : BitWriter} {field : FieldValue} {branch : Branch}
    {own matched : MatchResult} (typed : branch.Typed)
    (found : matchesBranch field branch = .ok (some own)) (same : own.msbBits = matched.msbBits) :
    Sound (writeResidue writer field branch matched) := by
  unfold writeResidue
  split
  · exact within_ok _
  · exact within_ok _
  · exact within_ok _
  · exact within_ok _
  · refine within_bind (sound_writeLengthPrefix _ _ _) fun _ _ => ?_
    exact within_ite (fun _ => within_ok _) fun _ => FieldValue.sound_writeRangeTo _ _ _ _
  · rename_i action
    split
    · exact sound_unselected
    · obtain ⟨values, target⟩ := typed.mappingSent action
      rw [target]
      exact within_ite (fun _ => within_ok _) fun _ => BitWriter.sound_writeBits _ _ _
  · rename_i action
    have msb := typed.lsb action
    cases operator : branch.matching with
    | msb n =>
      have sent := (matchesBranch_msb branch operator found).2.1
      rw [← same, sent]
      exact within_bind (sound_writeLengthPrefix _ _ _) fun _ _ =>
        FieldValue.sound_writeRangeTo _ _ _ _
    | _ => rw [operator] at msb; cases msb

/- One entry. -/

/-- ICMPv6 fields are stored from the outer message only. -/
def FieldStore.Flat (fields : FieldStore) : Prop :=
  ∀ stored ∈ fields, ∀ name, stored.1.field = .icmpv6 name → stored.1.scope = .outer

theorem sound_scopeForField (state : CompressionState) (field : FieldRef) :
    Sound (scopeForField state field) := by
  refine within_ite (fun _ => within_ok _) fun _ => within_ite (fun _ => ?_) fun _ => within_ok _
  exact within_ite (fun _ => within_ok _) fun _ =>
    within_ite (fun _ => sound_packetError _ _) fun _ => within_ok _

theorem sound_traverseBranch {packet : List UInt8} {direction : Direction} {branch : Branch}
    (typed : branch.Typed) (state : CompressionState) :
    Sound (traverseBranch packet direction branch state) := by
  refine within_ite (fun _ => within_ok _) fun _ => ?_
  refine within_bind (sound_scopeForField _ _) fun scope _ => ?_
  refine within_ite (fun _ => within_ok _) fun _ => ?_
  have length : Sound (resolveFieldBitLen branch.parse.length state) := by
    unfold resolveFieldBitLen
    split
    · exact within_ok _
    · exact within_ok _
    · exact within_bind (LengthResolver.sound_resolve _ _ _) fun _ _ => within_ok _
  refine within_bind length fun bitLen _ => ?_
  refine within_bind (sound_matchEntry _ _ _ _ _ _) fun entry taken => ?_
  cases entry with
  | none => exact within_ok _
  | some entry =>
    obtain ⟨field, matched⟩ := entry
    obtain ⟨-, own, found, -, same⟩ := matchEntry_matched taken
    have ordinal : Sound (optionOrdinal packet branch.parse scope matched) := by
      refine within_ite (fun _ => within_bind ?_ fun _ _ => within_ok _) fun _ => within_ok _
      refine within_ite (fun _ => sound_packetError _ _) fun _ => ?_
      split
      · exact within_ite (fun _ => within_fail nofun) fun _ =>
          within_bind (sound_outerCoap _) fun _ _ =>
            within_bind (sound_selectCoapOption _ _ _) fun _ _ => within_ok _
      · exact within_fail nofun
    have lengths : Sound (updateLengths state.lengths branch.parse.field field) :=
      within_ite (fun _ => within_bind (FieldValue.sound_toU64 _) fun _ _ => within_ok _)
        fun _ => within_ok _
    exact within_bind ordinal fun _ _ => within_bind (sound_writeResidue typed found same)
      fun _ _ => within_bind lengths fun _ _ => within_ok _

theorem flat_of_taken {packet : List UInt8} {direction : Direction} {branch : Branch}
    {state next : CompressionState} {bitLen : Option Nat} {value : FieldValue}
    {matched : MatchResult} (flat : FieldStore.Flat state.fields)
    (taken : Taken packet direction branch state bitLen value matched next) :
    FieldStore.Flat next.fields := by
  intro stored member name icmpv6
  rw [taken.fields, FieldStore.insert, List.mem_append, List.mem_singleton] at member
  rcases member with old | rfl
  · exact flat stored old name icmpv6
  · have field : branch.parse.field = .icmpv6 name := icmpv6
    have entry := taken.entry
    by_contra embedded
    have inner : next.scope = .embedded := by
      cases scope : next.scope with
      | outer => exact absurd scope embedded
      | embedded => rfl
    simp only [matchEntry, field, FieldRef.isCoapOption, Bool.false_eq_true, false_and, ↓reduceIte,
      extractField, inner, bind_eq_ok] at entry
    obtain ⟨own, ⟨source, -, extracted⟩, -⟩ := entry
    simp at extracted

theorem flat_of_traverseBranch {packet : List UInt8} {direction : Direction} {branch : Branch}
    {state next : CompressionState} (flat : FieldStore.Flat state.fields)
    (taken : traverseBranch packet direction branch state = .ok (some next)) :
    FieldStore.Flat next.fields := by
  rcases traverseBranch_some.mp taken with ⟨-, rfl⟩ | ⟨-, bitLen, value, matched, taken⟩
  · exact flat
  · exact flat_of_taken flat taken

/- Leaves. -/

theorem nestsErrors_of_flat {fields : FieldStore} (flat : fields.Flat) :
    nestsErrors fields = false := by
  have absent : fields.firstByFieldScope (.icmpv6 (.known .icmpv6Type)) .embedded = none := by
    refine List.findSome?_eq_none_iff.mpr fun stored member => if_neg ?_
    rintro ⟨icmpv6, embedded⟩
    have outer := flat stored member _ icmpv6
    rw [embedded] at outer
    cases outer
  have missing : ∃ reason, firstU8At fields (.icmpv6 (.known .icmpv6Type)) .embedded =
      invalidResidue reason := by
    rw [firstU8At, firstValueAt, absent]
    exact ⟨_, rfl⟩
  obtain ⟨reason, missing⟩ := missing
  have skips : entersEmbedded fields .embedded = false := by
    simp [entersEmbedded, missing, invalidResidue, fail]
  rw [nestsErrors, skips, Bool.and_false]

theorem sound_coapPrefixLength {udp : UdpDatagram} {message : CoapMessage}
    (parsed : CoapMessage.parse udp.payload = .ok message) (boundary : Nat) :
    Sound (coapPrefixLength udp boundary) := by
  have header := CoapMessage.header_of_parse parsed
  have long := header.long
  rw [coapPrefixLength, parsed, ok_bind, index_eq (by omega), ok_bind]
  refine within_bind (CoapMessage.sound_fromParts _ _ _ _ _ _ _) fun leading made => ?_
  obtain ⟨bytes, written, -⟩ := CoapMessage.parse_of_fromParts
    (fun o member => header.options o (List.mem_of_mem_take member)) made
  rw [written]
  exact within_ok _

theorem sound_coveredLength (ipv6 : Ipv6Packet) (state : CompressionState) :
    Sound (coveredLength ipv6 state) := by
  refine within_ite (fun _ => ?_) fun _ => within_ite (fun _ => ?_) fun _ => within_ok _
  · refine within_ite (fun _ => ?_) fun _ => within_ok _
    refine within_bind (UdpDatagram.sound_parse _) fun udp _ => ?_
    refine within_bind (CoapMessage.sound_parse _) fun message parsed => ?_
    split
    · exact within_ok _
    · exact within_bind (sound_coapPrefixLength parsed _) fun _ _ => within_ok _
  · exact within_bind (Icmpv6Message.sound_parse _) fun _ _ => within_ok _

theorem sound_carryThroughSuffix (packet : List UInt8) (state : CompressionState) :
    Sound (carryThroughSuffix packet state) := by
  refine within_ite (fun _ => within_ok _) fun _ => ?_
  refine within_bind (Ipv6Packet.sound_parse _) fun ipv6 _ => ?_
  refine within_bind (sound_coveredLength _ _) fun covered _ => ?_
  cases covered with
  | none => exact within_ok _
  | some offset => exact within_dite (fun _ => sound_packetError _ _) fun _ => within_ok _

theorem sound_leafSuffix (packet : List UInt8) (direction : Direction) {state : CompressionState}
    (flat : FieldStore.Flat state.fields) : Sound (leafSuffix packet direction state) := by
  have safe := safe_reconstructPacket (nestsErrors_of_flat flat) direction
  unfold leafSuffix
  split
  · exact absurd ‹_› (safe _)
  · exact sound_carryThroughSuffix _ _
  · exact within_ite (fun _ => within_ok _) fun _ => sound_carryThroughSuffix _ _

theorem sound_leafCandidate (packet : List UInt8) (direction : Direction) (rule : Option Rule)
    (ruleOrder : Nat) {ruleId : RuleId} (fits : ruleId.Fits) {state : CompressionState}
    (flat : FieldStore.Flat state.fields) :
    Sound (leafCandidate packet direction rule ruleOrder ruleId state) := by
  obtain ⟨whole, written, -⟩ := noCompressionCandidate_ok fits ruleOrder packet
  have offered : ∀ offer : Option (List UInt8) → Result (Option Candidate),
      offer none = .ok none →
      (∀ suffix, offer (some suffix) =
        compressedCandidate ruleOrder ruleId state.residue suffix >>= fun made => .ok (some made)) →
      Sound (leafSuffix packet direction state >>= offer) := by
    intro offer nothing carried
    refine within_bind (sound_leafSuffix packet direction flat) fun suffix _ => ?_
    cases suffix with
    | none =>
      rw [nothing]
      exact within_ok _
    | some suffix =>
      obtain ⟨w, made, -⟩ := compressedCandidate_ok fits ruleOrder state.residue suffix
      rw [carried, made]
      exact within_ok _
  have worded : Sound (noCompressionCandidate ruleOrder ruleId packet >>=
      fun candidate => .ok (some candidate)) := by
    rw [written]
    exact within_ok _
  unfold leafCandidate
  split
  · exact within_ite (fun _ => worded) fun _ => offered _ rfl fun _ => rfl
  · exact within_ite (fun _ => worded) fun _ => offered _ rfl fun _ => rfl
  · exact worded
  · exact within_ok _

/- The traversal. -/

theorem FieldRule.Valid.branch_typed {field : FieldRule} (valid : field.Valid) {branch : Branch}
    (same : branch.entry.label = field.label) : branch.Typed := by
  simp only [FieldRule.label, Branch.entry, FieldRule.mk.injEq] at same
  obtain ⟨-, -, -, -, target, matching, action, -⟩ := same
  constructor
  · intro lsb
    rw [matching]
    exact valid.lsb (action ▸ lsb)
  · intro sent
    have filled := valid.mappingSent (action ▸ sent)
    rw [target]
    cases own : field.target with
    | mapping values => exact ⟨values, rfl⟩
    | none => rw [own] at filled; cases filled
    | bytes bytes => rw [own] at filled; cases filled

theorem Grouped.branch_typed {depth : Nat} {members : List (Nat × Rule)}
    {groups : List BranchGroup} (grouped : Grouped depth members groups)
    (valid : ∀ m ∈ members, m.2.Valid) {group : BranchGroup} (inside : group ∈ groups)
    (next : Nat) : (group.branch next).Typed := by
  obtain ⟨m, field, head, placed, -⟩ := grouped.first group inside
  obtain ⟨source, own⟩ := grouped.mem_group inside (List.mem_of_mem_head? head)
  rw [entryClass_of_field placed] at own
  have label := congrArg Prod.fst (Option.some.inj own)
  refine ((valid m source).fields field (List.mem_of_getElem? placed)).branch_typed ?_
  rw [entry_branch, ← label]
  rfl

namespace Compressor
variable {c : Compressor} {packet : List UInt8} {direction : Direction}

/-- No recorded error is about an ill-typed entry or the nature of a rule. -/
def Clean (traversal : TraversalContext) : Prop := ∀ e ∈ traversal.branchErrors, ¬ e.Foreign

/-- Neither what a call leaves behind nor its verdict is about an ill-typed entry or the nature of
    a rule. -/
structure Finishes (outcome : TraversalContext × Result Unit) : Prop where
  clean : Clean outcome.1
  sound : Sound outcome.2

theorem finishes_absorb {outcome : TraversalContext × Result Unit} (finishes : Finishes outcome) :
    Clean (absorb outcome).1 ∧ (absorb outcome).2 = .ok () := by
  obtain ⟨traversal, verdict⟩ := outcome
  obtain ⟨clean, sound⟩ := finishes
  match verdict with
  | .ok () => exact ⟨clean, rfl⟩
  | .error (.panic site) =>
    obtain ⟨e, same, -⟩ := sound _ rfl
    cases same
  | .error (.fail error) =>
    obtain ⟨e, same, fine⟩ := sound _ rfl
    cases same
    refine ⟨?_, rfl⟩
    simp only [absorb, TraversalContext.recordBranchError]
    split
    · exact clean
    · intro e member
      rcases List.mem_append.mp member with old | new
      · exact clean e old
      · rw [List.mem_singleton] at new
        exact new ▸ fine

theorem sound_leafOf (fit : ∀ rule ∈ c.context.rules.rules, rule.id.Fits)
    {members : List (Nat × Rule)} {depth : Nat}
    (listed : ∀ m ∈ members, m.2 ∈ c.context.rules.rules) (branches : List Branch)
    {state : CompressionState} (flat : FieldStore.Flat state.fields) :
    Sound (c.leafOf packet direction (leafNode members depth branches) state) := by
  cases leaf : leafAt members depth with
  | none =>
    simp only [leafOf, leafNode, leaf, Option.map_none]
    exact within_ok _
  | some ended =>
    have member := (leafAt_some leaf).1
    simp only [leafOf, leafNode, leaf, Option.map_some]
    exact sound_leafCandidate packet direction _ ended.1 (fit ended.2 (listed ended member)) flat

theorem flat_of_advance {branch : Branch} {state next : CompressionState}
    (flat : FieldStore.Flat state.fields)
    (advanced : advance packet direction branch.entry state = .ok (some next)) :
    FieldStore.Flat next.fields := by
  rw [advance_entry] at advanced
  split at advanced
  · cases advanced
    exact flat
  · exact flat_of_traverseBranch flat advanced

/-- A branch finishes when the visit of where it leads does. -/
theorem visitBranch_finishes {branch : Branch} (typed : branch.Typed) {state : CompressionState}
    (flat : FieldStore.Flat state.fields) {before : TraversalContext} (clean : Clean before)
    {visit : Nat → CompressionState → TraversalContext → TraversalContext × Result Unit}
    (finishes : ∀ next : CompressionState, FieldStore.Flat next.fields →
      Finishes (visit branch.next next before)) :
    Clean (visitBranch packet direction visit state branch before).1 ∧
      (visitBranch packet direction visit state branch before).2 = .ok () := by
  apply finishes_absorb
  have sound : Sound (traverseBranch packet direction branch state) :=
    sound_traverseBranch typed state
  rw [advance_entry]
  by_cases skipped : ¬ branch.direction.accepts direction
  · rw [if_pos skipped]
    exact finishes state flat
  · rw [if_neg skipped]
    cases taken : traverseBranch packet direction branch state with
    | error halt =>
      rw [taken] at sound
      refine ⟨clean, ?_⟩
      intro halt' same
      cases same
      exact sound halt rfl
    | ok next =>
      cases next with
      | none => exact ⟨clean, within_ok _⟩
      | some next => exact finishes next (flat_of_traverseBranch flat taken)

/-- Whatever was collected before, the call for a branch leaves a clean context and no error. -/
def Absorbs (packet : List UInt8) (direction : Direction)
    (visit : Nat → CompressionState → TraversalContext → TraversalContext × Result Unit)
    (state : CompressionState) (branch : Branch) : Prop :=
  ∀ before, Clean before → Clean (visitBranch packet direction visit state branch before).1 ∧
    (visitBranch packet direction visit state branch before).2 = .ok ()

section Loop
variable {visit : Nat → CompressionState → TraversalContext → TraversalContext × Result Unit}
  {state : CompressionState}

theorem traverseBranches_step {branch : Branch} {branches : List Branch}
    {before : TraversalContext}
    (absorbed : (visitBranch packet direction visit state branch before).2 = .ok ()) :
    traverseBranches packet direction visit state (branch :: branches) before =
      traverseBranches packet direction visit state branches
        (visitBranch packet direction visit state branch before).1 := by
  rw [traverseBranches_cons]
  split
  · rename_i after halt outcome
    rw [outcome] at absorbed
    cases absorbed
  · rename_i after outcome
    rw [outcome]

theorem traverseBranches_finishes {branches : List Branch}
    (absorbs : ∀ branch ∈ branches, Absorbs packet direction visit state branch)
    {before : TraversalContext} (clean : Clean before) :
    Clean (traverseBranches packet direction visit state branches before).1 ∧
      (traverseBranches packet direction visit state branches before).2 = .ok () := by
  induction branches generalizing before with
  | nil => exact ⟨clean, rfl⟩
  | cons branch branches later =>
    obtain ⟨kept, absorbed⟩ := absorbs branch List.mem_cons_self before clean
    rw [traverseBranches_step absorbed]
    exact later (fun b rest => absorbs b (List.mem_cons_of_mem _ rest)) kept

end Loop

/-- A node whose leaf does not fail goes on to its branches. -/
theorem traverse_node {i : Nat} {node : Node} (there : c.tree.nodes[i]? = some node)
    {state : CompressionState} {candidate : Option Candidate}
    (offer : c.leafOf packet direction node state = .ok candidate) (steps : Nat)
    (before : TraversalContext) :
    ∃ errors, c.traverse packet direction (steps + 1) i state before =
      traverseBranches packet direction (c.traverse packet direction steps) state node.branches
        { before with
          candidates := before.candidates ++ candidate.toList
          natureErrors := errors } := by
  obtain ⟨errors, visited⟩ := visitLeaf_ok before offer
  refine ⟨errors, ?_⟩
  rw [traverse]
  simp only [there, visited]

/-- The node that a branch leads to stands later and holds listed rules. -/
theorem below_branch {height depth i : Nat} {members : List (Nat × Rule)} {branches : List Branch}
    {groups : List BranchGroup} (grouped : Grouped depth members groups)
    (linked : List.Forall₂ (fun branch group => branch = group.branch branch.next ∧
      i < branch.next ∧ Built c.tree.nodes height (depth + 1) branch.next group.members) branches
      (sortGroups groups))
    (valid : ∀ rule ∈ c.context.rules.rules, rule.Valid)
    (listed : ∀ m ∈ members, m.2 ∈ c.context.rules.rules) {branch : Branch}
    (member : branch ∈ branches) :
    branch.Typed ∧ i < branch.next ∧ ∃ below,
      Built c.tree.nodes height (depth + 1) branch.next below ∧
        ∀ m ∈ below, m.2 ∈ c.context.rules.rules := by
  obtain ⟨group, inside, same, further, built⟩ := partner_right linked member
  refine ⟨?_, further, group.members, built, ?_⟩
  · exact same ▸ grouped.branch_typed (fun m source => valid m.2 (listed m source))
      (mem_sortGroups.mp inside) _
  · exact fun m mine => listed m (grouped.mem_group (mem_sortGroups.mp inside) mine).1

/-- From a node of the tree the traversal finishes. -/
theorem traverse_finishes (valid : ∀ rule ∈ c.context.rules.rules, rule.Valid)
    {steps height depth i : Nat} {members : List (Nat × Rule)} {state : CompressionState}
    {traversal : TraversalContext} (built : Built c.tree.nodes height depth i members)
    (listed : ∀ m ∈ members, m.2 ∈ c.context.rules.rules)
    (enough : c.tree.nodes.length < i + steps) (flat : FieldStore.Flat state.fields)
    (clean : Clean traversal) :
    Finishes (c.traverse packet direction steps i state traversal) := by
  induction steps generalizing height depth i members state traversal with
  | zero =>
    cases height with
    | zero => exact absurd built id
    | succ height =>
      obtain ⟨branches, groups, there, -, -⟩ := built
      have inside := (List.getElem?_eq_some_iff.mp there).1
      omega
  | succ steps ih =>
    cases height with
    | zero => exact absurd built id
    | succ height =>
      obtain ⟨branches, groups, there, grouped, linked⟩ := built
      have own : Sound (c.leafOf packet direction (leafNode members depth branches) state) :=
        sound_leafOf (fun rule member => (valid rule member).id) listed branches flat
      have absorbs : ∀ branch ∈ branches, Absorbs packet direction
          (c.traverse packet direction steps) state branch := by
        intro branch member before clean
        obtain ⟨typed, further, below, built, inside⟩ :=
          below_branch grouped linked valid listed member
        exact visitBranch_finishes typed flat clean fun next flat =>
          ih built inside (by omega) flat clean
      cases offer : c.leafOf packet direction (leafNode members depth branches) state with
      | error halt =>
        rw [traverse]
        simp only [there]
        rw [visitLeaf_error offer]
        refine ⟨clean, ?_⟩
        rw [offer] at own
        intro halt' same
        cases same
        exact own halt rfl
      | ok candidate =>
        obtain ⟨errors, goes⟩ := traverse_node there offer steps traversal
        rw [goes]
        have clean' : Clean { traversal with
            candidates := traversal.candidates ++ candidate.toList
            natureErrors := errors } := clean
        obtain ⟨kept, done⟩ := traverseBranches_finishes absorbs clean'
        refine ⟨kept, ?_⟩
        change Sound (traverseBranches _ _ _ _ branches _).2
        rw [done]
        exact within_ok _

/-- The traversal that `compress` runs finishes. -/
theorem run_finishes {ctx : RuleContext} (valid : ctx.Valid) (made : new ctx = .ok c)
    (packet : List UInt8) (direction : Direction) :
    Finishes (c.traverse packet direction (c.tree.nodes.length + 1) 0 .initial ⟨[], [], []⟩) := by
  obtain ⟨same, built⟩ := new_built made
  subst same
  refine traverse_finishes valid.rules built ?_ (by omega) ?_ ?_
  · intro m member
    exact List.mem_of_getElem? (mem_orderedRules.mp member)
  · intro entry member
    cases member
  · intro e member
    cases member

theorem sound_emptyNoCompressionFrom {k : Nat} {rules : List Rule}
    (fit : ∀ rule ∈ rules, rule.id.Fits) : Sound (emptyNoCompressionFrom packet k rules) := by
  induction rules generalizing k with
  | nil => exact within_ok _
  | cons rule rules ih =>
    refine within_ite (fun _ => ?_) fun _ => ?_
    · obtain ⟨w, written, -⟩ :=
        noCompressionCandidate_ok (fit rule List.mem_cons_self) k packet
      rw [written]
      exact within_ok _
    · exact ih fun rule member => fit rule (List.mem_cons_of_mem _ member)

theorem wellTyped_selectDatagram {traversal : TraversalContext} (clean : Clean traversal) :
    WellTyped (selectDatagram traversal) := by
  unfold selectDatagram
  split
  · exact within_ok _
  · split
    · exact within_fail nofun
    · split
      · rename_i error later recorded
        have fine : ¬ error.Foreign := clean error (by rw [recorded]; exact List.mem_cons_self)
        exact within_fail fun ill => fine (.illTyped ill)
      · exact within_fail nofun

/-- Under a loaded context compression returns or reports an error about something else. -/
theorem wellTyped_compress {ctx : RuleContext} (valid : ctx.Valid) (made : new ctx = .ok c)
    (packet : List UInt8) (direction : Direction) : WellTyped (c.compress direction packet) := by
  have parsing := Ipv6Packet.sound_parse packet
  unfold compress
  split
  · rename_i site panicked
    exact absurd panicked (parsing.safe site)
  · rename_i error unparsed
    have fit : ∀ rule ∈ c.context.rules.rules, rule.id.Fits := by
      rw [(new_built made).1]
      exact fun rule member => (valid.rules rule member).id
    refine within_bind (wellTyped_of_sound (sound_emptyNoCompressionFrom fit)) fun candidate _ => ?_
    cases candidate with
    | some candidate => exact within_ok _
    | none =>
      obtain ⟨e, same, fine⟩ := parsing _ unparsed
      cases same
      exact within_fail fun ill => fine (.illTyped ill)
  · have finishes := run_finishes valid made packet direction
    split
    · rename_i traversal halt ended
      rw [ended] at finishes
      intro halt' same
      cases same
      exact wellTyped_of_sound finishes.sound halt rfl
    · rename_i traversal ended
      rw [ended] at finishes
      exact wellTyped_selectDatagram finishes.clean

end Compressor
end SchcCore
