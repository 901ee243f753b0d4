import SchcCore.Decompress.Safety
import SchcCore.Packet.Summed

/- The checksums of whole runs. Decompression and compression over a sum that may refuse a
   segment, and exactly when a checked sum refuses one. -/
namespace SchcCore
open Outcome BitList Bytes BigEndian OnesComplement FieldStore

section
variable (sum : List UInt8 → List UInt8 → UInt8 → List UInt8 → Result Nat)

def rebuildBy (direction : Direction) (fields : FieldStore) : Option (List UInt8) →
    Result (List UInt8)
  | some suffix => reconstructPacketWithSuffixBy sum direction fields suffix
  | none => reconstructPacketBy sum direction fields

def decodeCompressedBy (rule : Rule) (direction : Direction)
    (provider : Option ExternalValueProvider) (compressed : List UInt8) (reader : BitReader) :
    Result (List UInt8) := do
  let (fields, reader) ← decodeFields rule direction provider reader
  let (suffix, _) ← readSuffix compressed fields reader
  rebuildBy sum direction fields suffix

namespace Decompressor

def decodePacketBy (d : Decompressor) (position : Position) (compressed : List UInt8) (rule : Rule)
    (reader : BitReader) : Result (List UInt8) :=
  match rule.nature with
  | .compression | .management =>
      if rule.fields.isEmpty then decodeNoCompressionPayload reader
      else decodeCompressedBy sum rule (inverseDirection position) d.provider compressed reader
  | .noCompression => decodeNoCompressionPayload reader
  | .fragmentation => fail (.unsupportedRuleNature rule.nature.asStr)

def decompressWithBitLenDetailedBy (d : Decompressor) (position : Position)
    (compressed : List UInt8) (bitLen : Nat) : Result DecompressedDatagram := do
  let (rule, reader) ← selectRule compressed bitLen d.context.rules.rules
  let packet ← d.decodePacketBy sum position compressed rule reader
  .ok ⟨packet, rule.id⟩

end Decompressor

def leafSuffixBy (packet : List UInt8) (direction : Direction) (state : CompressionState) :
    Result (Option (List UInt8)) :=
  match reconstructPacketBy sum direction state.fields with
  | .error (.panic site) => .error (.panic site)
  | .error (.fail _) => carryThroughSuffix packet state
  | .ok bytes => if bytes = packet then .ok (some []) else carryThroughSuffix packet state

def leafCandidateBy (packet : List UInt8) (direction : Direction) (rule : Option Rule)
    (ruleOrder : Nat) (ruleId : RuleId) (state : CompressionState) : Result (Option Candidate) :=
  match (rule.map (fun rule => rule.nature)).getD .compression with
  | .compression | .management =>
      if rule.any (fun rule => rule.fields.isEmpty) then do
        let candidate ← noCompressionCandidate ruleOrder ruleId packet
        .ok (some candidate)
      else do
        let suffix ← leafSuffixBy sum packet direction state
        match suffix with
        | none => .ok none
        | some suffix => do
            let candidate ← compressedCandidate ruleOrder ruleId state.residue suffix
            .ok (some candidate)
  | .noCompression => do
      let candidate ← noCompressionCandidate ruleOrder ruleId packet
      .ok (some candidate)
  | .fragmentation => .ok none

namespace Compressor

def visitLeafBy (c : Compressor) (packet : List UInt8) (direction : Direction) (node : Node)
    (state : CompressionState) (traversal : TraversalContext) : Result TraversalContext :=
  match node.ruleId, node.ruleOrder with
  | some ruleId, some ruleOrder => do
      let rule := c.context.rules.rules[ruleOrder]?
      let candidate ← leafCandidateBy sum packet direction rule ruleOrder ruleId state
      .ok { traversal with
        candidates := traversal.candidates ++ candidate.toList
        natureErrors := traversal.natureErrors ++ leafNatureErrors rule }
  | _, _ => .ok traversal

def traverseBy (c : Compressor) (packet : List UInt8) (direction : Direction) :
    Nat → Nat → CompressionState → TraversalContext → TraversalContext × Result Unit
  | 0, _, _, traversal => (traversal, panicAt .stackOverflow)
  | steps + 1, nodeIndex, state, traversal =>
      match c.tree.nodes[nodeIndex]? with
      | none => (traversal, panicAt .index)
      | some node =>
          match c.visitLeafBy sum packet direction node state traversal with
          | .error halt => (traversal, .error halt)
          | .ok traversal =>
              traverseBranches packet direction (c.traverseBy packet direction steps) state
                node.branches traversal

def compressBy (c : Compressor) (direction : Direction) (packet : List UInt8) :
    Result CompressedDatagram :=
  match Ipv6Packet.parse packet with
  | .error (.panic site) => .error (.panic site)
  | .error (.fail error) => do
      let candidate ← c.emptyNoCompressionCandidate packet
      match candidate with
      | some candidate => .ok candidate.datagram
      | none => fail error
  | .ok _ =>
      match c.traverseBy sum packet direction (c.tree.nodes.length + 1) 0 .initial ⟨[], [], []⟩ with
      | (_, .error halt) => .error halt
      | (traversal, .ok ()) => selectDatagram traversal

end Compressor
end

/- Over the sum of a release build, these are the runs themselves. -/

theorem rebuildBy_wrapping (direction : Direction) (fields : FieldStore)
    (suffix : Option (List UInt8)) :
    rebuildBy wrappingChecksum direction fields suffix = rebuild direction fields suffix := by
  cases suffix with
  | none => exact reconstructPacketBy_wrapping direction fields
  | some suffix => exact reconstructPacketWithSuffixBy_wrapping direction fields suffix

theorem decompressBy_wrapping (d : Decompressor) (position : Position) (compressed : List UInt8)
    (bitLen : Nat) :
    d.decompressWithBitLenDetailedBy wrappingChecksum position compressed bitLen =
      d.decompressWithBitLenDetailed position compressed bitLen := by
  have packet : ∀ rule reader, d.decodePacketBy wrappingChecksum position compressed rule reader =
      d.decodePacket position compressed rule reader := by
    intro rule reader
    unfold Decompressor.decodePacketBy decodeCompressedBy
    simp only [rebuildBy_wrapping]
    rfl
  unfold Decompressor.decompressWithBitLenDetailedBy
  simp only [packet]
  rfl

theorem compressBy_wrapping (c : Compressor) (direction : Direction) (packet : List UInt8) :
    c.compressBy wrappingChecksum direction packet = c.compress direction packet := by
  have suffix : ∀ state, leafSuffixBy wrappingChecksum packet direction state =
      leafSuffix packet direction state := by
    intro state
    rw [leafSuffixBy, reconstructPacketBy_wrapping]
    rfl
  have candidate : ∀ rule order id state,
      leafCandidateBy wrappingChecksum packet direction rule order id state =
        leafCandidate packet direction rule order id state := by
    intro rule order id state
    rw [leafCandidateBy, suffix]
    rfl
  have leaf : ∀ node state traversal,
      c.visitLeafBy wrappingChecksum packet direction node state traversal =
        c.visitLeaf packet direction node state traversal := by
    intro node state traversal
    unfold Compressor.visitLeafBy
    simp only [candidate]
    rfl
  have whole : ∀ steps i state traversal,
      c.traverseBy wrappingChecksum packet direction steps i state traversal =
        c.traverse packet direction steps i state traversal := by
    intro steps
    induction steps with
    | zero => exact fun _ _ _ => rfl
    | succ steps ih =>
      intro i state traversal
      rw [Compressor.traverseBy, Compressor.traverse]
      cases c.tree.nodes[i]? with
      | none => rfl
      | some node =>
        dsimp only
        rw [leaf]
        cases c.visitLeaf packet direction node state traversal with
        | error halt => rfl
        | ok after =>
          exact Compressor.traverseBranches_congr (fun branch _ next _ => funext (ih branch.next next)) _
  rw [Compressor.compressBy, whole]
  rfl

/- Decompression. -/

/-- The entries, and the suffix if there is one, describe an upper layer too long to be summed. -/
def RebuildOversums (direction : Direction) (fields : FieldStore) : Option (List UInt8) → Prop
  | some suffix => SuffixOversums direction fields suffix
  | none => Oversums direction fields

theorem rebuild_gives_up (direction : Direction) (fields : FieldStore)
    (suffix : Option (List UInt8)) :
    GivesUp (RebuildOversums direction fields suffix)
      (rebuildBy boundedChecksum direction fields suffix) (rebuild direction fields suffix) := by
  cases suffix with
  | none => exact reconstructPacket_gives_up direction fields
  | some suffix => exact reconstructPacketWithSuffix_gives_up suffix

theorem RebuildOversums.sends {direction : Direction} {fields : FieldStore}
    {suffix : Option (List UInt8)} (trip : RebuildOversums direction fields suffix) :
    ∃ scope, SendsUnchecked fields scope := by
  cases suffix with
  | none => exact Oversums.sends trip
  | some suffix => exact SuffixOversums.sends trip

namespace Decompressor
variable {d : Decompressor} {position : Position} {compressed : List UInt8}

/-- What is read of the datagram at this length describes such a packet. -/
def Oversums (d : Decompressor) (position : Position) (compressed : List UInt8) (bitLen : Nat) :
    Prop :=
  ∃ rule fields suffix, d.readFrame position compressed bitLen = .ok (.coded rule fields suffix) ∧
    RebuildOversums (inverseDirection position) fields suffix

theorem decodeCompressed_gives_up (rule : Rule) (reader : BitReader) :
    GivesUp (∃ read, decodeFields rule (inverseDirection position) d.provider reader = .ok read ∧
        ∃ rest, readSuffix compressed read.1 read.2 = .ok rest ∧
          RebuildOversums (inverseDirection position) read.1 rest.1)
      (decodeCompressedBy boundedChecksum rule (inverseDirection position) d.provider compressed
        reader)
      (decodeCompressed rule (inverseDirection position) d.provider compressed reader) :=
  GivesUp.after fun read _ => GivesUp.after fun rest _ =>
    rebuild_gives_up (inverseDirection position) read.1 rest.1

theorem decodePacket_gives_up (rule : Rule) (reader : BitReader) :
    GivesUp (∃ rule' fields suffix,
        d.readBody position compressed rule reader = .ok (.coded rule' fields suffix) ∧
        RebuildOversums (inverseDirection position) fields suffix)
      (d.decodePacketBy boundedChecksum position compressed rule reader)
      (d.decodePacket position compressed rule reader) := by
  have whole : ¬ ∃ rule' fields suffix,
      (readWhole reader).map (Frame.whole rule) = .ok (.coded rule' fields suffix) ∧
        RebuildOversums (inverseDirection position) fields suffix := by
    rintro ⟨rule', fields, suffix, read, -⟩
    cases made : readWhole reader with
    | error halt => simp [made, Except.map] at read
    | ok packet => simp [made, Except.map] at read
  have coded : GivesUp (∃ rule' fields suffix,
      (decodeFields rule (inverseDirection position) d.provider reader >>= fun read =>
        readSuffix compressed read.1 read.2 >>= fun rest =>
          (.ok (Frame.coded rule read.1 rest.1) : Result Frame)) =
        .ok (.coded rule' fields suffix) ∧
      RebuildOversums (inverseDirection position) fields suffix)
      (decodeCompressedBy boundedChecksum rule (inverseDirection position) d.provider compressed
        reader)
      (decodeCompressed rule (inverseDirection position) d.provider compressed reader) := by
    refine (decodeCompressed_gives_up rule reader).congr ?_
    simp only [bind_eq_ok]
    constructor
    · rintro ⟨rule', fields, suffix, ⟨read, decoded, rest, ended, same⟩, trip⟩
      cases same
      exact ⟨read, decoded, rest, ended, trip⟩
    · rintro ⟨read, decoded, rest, ended, trip⟩
      exact ⟨rule, read.1, rest.1, ⟨read, decoded, rest, ended, rfl⟩, trip⟩
  unfold readBody decodePacketBy decodePacket
  cases rule.nature with
  | compression =>
    dsimp only
    split
    · exact .never whole
    · exact coded
  | management =>
    dsimp only
    split
    · exact .never whole
    · exact coded
  | noCompression => exact .never whole
  | fragmentation =>
    refine .never ?_
    rintro ⟨rule', fields, suffix, read, -⟩
    cases read

theorem decompress_gives_up (bitLen : Nat) :
    GivesUp (d.Oversums position compressed bitLen)
      (d.decompressWithBitLenDetailedBy boundedChecksum position compressed bitLen)
      (d.decompressWithBitLenDetailed position compressed bitLen) := by
  have each : GivesUp (∃ selected, selectRule compressed bitLen d.context.rules.rules = .ok selected ∧
      ∃ rule' fields suffix,
        d.readBody position compressed selected.1 selected.2 = .ok (.coded rule' fields suffix) ∧
        RebuildOversums (inverseDirection position) fields suffix)
      (d.decompressWithBitLenDetailedBy boundedChecksum position compressed bitLen)
      (d.decompressWithBitLenDetailed position compressed bitLen) :=
    GivesUp.after fun selected _ => (decodePacket_gives_up selected.1 selected.2).before
  refine each.congr ?_
  unfold Decompressor.Oversums readFrame
  simp only [bind_eq_ok]
  constructor
  · rintro ⟨rule, fields, suffix, ⟨selected, found, read⟩, trip⟩
    exact ⟨selected, found, rule, fields, suffix, read, trip⟩
  · rintro ⟨selected, found, rule, fields, suffix, read, trip⟩
    exact ⟨rule, fields, suffix, ⟨selected, found, read⟩, trip⟩

end Decompressor

/- Compression. -/

theorem leafSuffix_gives_up (packet : List UInt8) (direction : Direction)
    (state : CompressionState) :
    GivesUp (Oversums direction state.fields)
      (leafSuffixBy boundedChecksum packet direction state) (leafSuffix packet direction state) := by
  have rebuilt := reconstructPacket_gives_up direction state.fields
  constructor
  · intro trip
    rw [leafSuffixBy, rebuilt.gives trip]
    rfl
  · intro clear
    rw [leafSuffixBy, rebuilt.same clear]
    rfl

/-- A leaf of this rule rebuilds the packet. -/
def leafRebuilds (rule : Option Rule) : Bool :=
  ((rule.map (fun rule => rule.nature)).getD .compression = .compression ||
    (rule.map (fun rule => rule.nature)).getD .compression = .management) &&
    !rule.any (fun rule => rule.fields.isEmpty)

theorem leafCandidate_gives_up (packet : List UInt8) (direction : Direction) (rule : Option Rule)
    (ruleOrder : Nat) (ruleId : RuleId) (state : CompressionState) :
    GivesUp (leafRebuilds rule = true ∧ Oversums direction state.fields)
      (leafCandidateBy boundedChecksum packet direction rule ruleOrder ruleId state)
      (leafCandidate packet direction rule ruleOrder ruleId state) := by
  unfold leafRebuilds leafCandidateBy leafCandidate
  generalize (rule.map (fun rule => rule.nature)).getD .compression = nature
  by_cases empty : rule.any (fun rule => rule.fields.isEmpty) = true
  · cases nature <;> simp only [empty, ↓reduceIte] <;> exact .never (by simp)
  · have carried := (leafSuffix_gives_up packet direction state).before (f := fun suffix =>
      match suffix with
      | none => .ok none
      | some suffix => do
          let candidate ← compressedCandidate ruleOrder ruleId state.residue suffix
          .ok (some candidate))
    cases nature with
    | compression =>
      dsimp only
      rw [if_neg empty, if_neg empty]
      exact carried.congr (by simp [empty])
    | management =>
      dsimp only
      rw [if_neg empty, if_neg empty]
      exact carried.congr (by simp [empty])
    | noCompression => exact .never (by simp)
    | fragmentation => exact .never (by simp)

namespace Compressor
variable {c : Compressor} {packet : List UInt8} {direction : Direction}

/-- The rule that ends at a node rebuilds the packet, over too long a segment. -/
def LeafOversums (c : Compressor) (direction : Direction) (node : Node)
    (state : CompressionState) : Prop :=
  (∃ ruleId ruleOrder, node.ruleId = some ruleId ∧ node.ruleOrder = some ruleOrder ∧
    leafRebuilds c.context.rules.rules[ruleOrder]? = true) ∧ SchcCore.Oversums direction state.fields

theorem visitLeaf_gives_up (node : Node) (state : CompressionState)
    (traversal : TraversalContext) :
    GivesUp (c.LeafOversums direction node state)
      (c.visitLeafBy boundedChecksum packet direction node state traversal)
      (c.visitLeaf packet direction node state traversal) := by
  unfold LeafOversums visitLeafBy visitLeaf
  cases named : node.ruleId with
  | none => exact .never (by simp)
  | some ruleId =>
    cases ordered : node.ruleOrder with
    | none => exact .never (by simp)
    | some ruleOrder =>
      refine (leafCandidate_gives_up packet direction c.context.rules.rules[ruleOrder]? ruleOrder
        ruleId state).before.congr ?_
      simp

/-- Some leaf of the traversal from node `i` does so. -/
def TraverseOversums (c : Compressor) (direction : Direction) (packet : List UInt8) (i : Nat)
    (state : CompressionState) : Prop :=
  ∃ path j last node, c.Visits packet direction i state path j last ∧
    c.tree.nodes[j]? = some node ∧ c.LeafOversums direction node last

theorem traverse_same (steps : Nat) {i : Nat} {state : CompressionState}
    (clear : ¬ c.TraverseOversums direction packet i state) (traversal : TraversalContext) :
    c.traverseBy boundedChecksum packet direction steps i state traversal =
      c.traverse packet direction steps i state traversal := by
  induction steps generalizing i state traversal with
  | zero => rfl
  | succ steps ih =>
    rw [traverseBy, traverse]
    cases there : c.tree.nodes[i]? with
    | none => rfl
    | some node =>
      dsimp only
      have here : ¬ c.LeafOversums direction node state :=
        fun trip => clear ⟨[], i, state, node, .here, there, trip⟩
      rw [(visitLeaf_gives_up node state traversal).same here]
      cases offer : c.leafOf packet direction node state with
      | error halt =>
        rw [visitLeaf_error offer]
      | ok candidate =>
        obtain ⟨errors, visited⟩ := visitLeaf_ok traversal offer
        rw [visited]
        dsimp only
        refine traverseBranches_congr (fun branch member next taken => ?_) _
        funext after
        refine ih (fun below => clear ?_) after
        obtain ⟨path, j, last, leaf, visits, found, trip⟩ := below
        exact ⟨_, j, last, leaf, .step there offer member taken visits, found, trip⟩

theorem absorb_verdict (outcome : TraversalContext × Result Unit) :
    (absorb outcome).2 = .ok () ∨ ∃ site, (absorb outcome).2 = panicAt site := by
  obtain ⟨traversal, verdict⟩ := outcome
  match verdict with
  | .ok () => exact .inl rfl
  | .error (.fail error) => exact .inl rfl
  | .error (.panic site) => exact .inr ⟨site, rfl⟩

/-- A panic below a branch ends the loop. -/
theorem traverseBranches_panics
    {visit : Nat → CompressionState → TraversalContext → TraversalContext × Result Unit}
    {state next : CompressionState} {branch : Branch} {branches : List Branch}
    (member : branch ∈ branches)
    (taken : advance packet direction branch.entry state = .ok (some next))
    (panics : ∀ traversal, ∃ site, (visit branch.next next traversal).2 = panicAt site)
    (traversal : TraversalContext) :
    ∃ site, (traverseBranches packet direction visit state branches traversal).2 =
      panicAt site := by
  induction branches generalizing traversal with
  | nil => cases member
  | cons first branches ih =>
    rw [traverseBranches_cons]
    have verdict : (visitBranch packet direction visit state first traversal).2 = .ok () ∨
        ∃ site, (visitBranch packet direction visit state first traversal).2 = panicAt site :=
      absorb_verdict _
    have here : first = branch →
        ∃ site, (visitBranch packet direction visit state first traversal).2 = panicAt site := by
      rintro rfl
      obtain ⟨site, panicked⟩ := panics traversal
      refine ⟨site, ?_⟩
      rw [visitBranch, taken]
      dsimp only
      generalize visit first.next next traversal = outcome at panicked
      obtain ⟨after, result⟩ := outcome
      cases panicked
      rfl
    generalize visitBranch packet direction visit state first traversal = outcome at verdict here
    obtain ⟨after, result⟩ := outcome
    rcases verdict with passed | ⟨site, panicked⟩
    · cases passed
      rcases List.mem_cons.mp member with same | later
      · obtain ⟨site, panicked⟩ := here same.symm
        cases panicked
      · exact ih later after
    · cases panicked
      exact ⟨site, rfl⟩

theorem traverse_panics (steps : Nat) {i j : Nat} {state last : CompressionState}
    {path : List FieldRule} {node : Node} (visits : c.Visits packet direction i state path j last)
    (found : c.tree.nodes[j]? = some node) (trip : c.LeafOversums direction node last)
    (traversal : TraversalContext) :
    ∃ site, (c.traverseBy boundedChecksum packet direction steps i state traversal).2 =
      panicAt site := by
  induction steps generalizing i state path traversal with
  | zero => exact ⟨.stackOverflow, rfl⟩
  | succ steps ih =>
    rw [traverseBy]
    cases visits with
    | here =>
      rw [found]
      dsimp only
      rw [(visitLeaf_gives_up node last traversal).gives trip]
      exact ⟨additionOverflow, rfl⟩
    | step there offer member taken below =>
      rename_i passed candidate branch next path
      rw [there]
      dsimp only
      by_cases here : c.LeafOversums direction passed state
      · rw [(visitLeaf_gives_up passed state traversal).gives here]
        exact ⟨additionOverflow, rfl⟩
      · obtain ⟨errors, visited⟩ := visitLeaf_ok traversal offer
        rw [(visitLeaf_gives_up passed state traversal).same here, visited]
        exact traverseBranches_panics member taken (fun after => ih below after) _

/-- Compressing the packet rebuilds it so at some rule. -/
def Oversums (c : Compressor) (direction : Direction) (packet : List UInt8) : Prop :=
  (∃ p, Ipv6Packet.parse packet = .ok p) ∧ c.TraverseOversums direction packet 0 .initial

theorem compress_bounded_iff (safe : Safe (c.compress direction packet)) :
    c.compressBy boundedChecksum direction packet = c.compress direction packet ↔
      ¬ c.Oversums direction packet := by
  have failed : (∀ p, Ipv6Packet.parse packet ≠ .ok p) →
      c.compressBy boundedChecksum direction packet = c.compress direction packet := by
    intro malformed
    unfold compressBy compress
    cases parsed : Ipv6Packet.parse packet with
    | ok p => exact absurd parsed (malformed p)
    | error halt => cases halt <;> rfl
  constructor
  · rintro same ⟨⟨p, parsed⟩, path, j, last, node, visits, found, trip⟩
    rw [← same] at safe
    obtain ⟨site, panicked⟩ := traverse_panics (c.tree.nodes.length + 1) visits found trip ⟨[], [], []⟩
    refine safe site ?_
    rw [compressBy, parsed]
    dsimp only
    generalize c.traverseBy boundedChecksum packet direction (c.tree.nodes.length + 1) 0 .initial
      ⟨[], [], []⟩ = outcome at panicked
    obtain ⟨after, result⟩ := outcome
    cases panicked
    rfl
  · intro clear
    by_cases parses : ∃ p, Ipv6Packet.parse packet = .ok p
    · have calm : ¬ c.TraverseOversums direction packet 0 .initial :=
        fun trip => clear ⟨parses, trip⟩
      rw [compressBy, traverse_same _ calm]
      rfl
    · exact failed fun p parsed => parses ⟨p, parsed⟩

end Compressor

/-- The sums of a run stay below 2^32, over segments of at most 65535 bytes, exactly when the
    entries it rebuilds from describe no longer upper layer whose checksum is to be computed. That
    takes lengths that are sent; a computed length is checked before the sum. -/
theorem checksum_accumulator_bounded_iff {ctx : RuleContext} (loaded : ctx.Loaded) {c : Compressor}
    (made : Compressor.new ctx = .ok c) (provider : Option ExternalValueProvider) :
    (∀ direction packet,
      c.compressBy boundedChecksum direction packet = c.compress direction packet ↔
        ¬ c.Oversums direction packet) ∧
    (∀ position compressed bitLen,
      Decompressor.decompressWithBitLenDetailedBy boundedChecksum ⟨ctx, provider⟩ position
          compressed bitLen =
        Decompressor.decompressWithBitLenDetailed ⟨ctx, provider⟩ position compressed bitLen ↔
        ¬ Decompressor.Oversums ⟨ctx, provider⟩ position compressed bitLen) ∧
    (∀ direction fields suffix, RebuildOversums direction fields suffix →
      ∃ scope, SendsUnchecked fields scope) := by
  refine ⟨?_, ?_, fun _ _ _ trip => trip.sends⟩
  · intro direction packet
    exact Compressor.compress_bounded_iff
      (Compressor.wellTyped_compress loaded.valid made packet direction).safe
  · intro position compressed bitLen
    refine (Decompressor.decompress_gives_up bitLen).iff ?_
    by_cases nests : Decompressor.Nests ⟨ctx, provider⟩ position compressed bitLen
    · rw [Decompressor.decompress_overflows nests]
      intro same
      cases same
    · exact Decompressor.safe_of_not_nests nests additionOverflow

theorem checksum_accumulator_bounded_at_udp :
    Decompressor.decompressWithBitLenDetailedBy boundedChecksum ⟨udpContext, none⟩ .device [2] 8 =
      Decompressor.decompressWithBitLenDetailed ⟨udpContext, none⟩ .device [2] 8 := by
  obtain ⟨c, made⟩ := Compressor.new_total udpContext
  obtain ⟨-, decompresses, sends⟩ := checksum_accumulator_bounded_iff udpContext_loaded made none
  refine (decompresses .device [2] 8).mpr ?_
  rintro ⟨rule, fields, suffix, read, trip⟩
  obtain ⟨scope, sent, -, -⟩ := sends .down fields suffix trip
  have counted : (match Decompressor.readFrame ⟨udpContext, none⟩ .device [2] 8 with
      | .ok (.coded _ fields _) =>
          fields.containsFieldScope (.ipv6 (.known .ipv6PayloadLength)) .outer ||
            fields.containsFieldScope (.ipv6 (.known .ipv6PayloadLength)) .embedded
      | _ => false) = false := by decide +kernel
  rw [read] at counted
  rw [Bool.or_eq_false_iff] at counted
  cases scope with
  | outer => exact absurd sent (by simp [counted.1])
  | embedded => exact absurd sent (by simp [counted.2])

/- The same header with both lengths transmitted, over a carried payload of 131080 bytes. -/

def summedFile : RuleFile :=
  ⟨[⟨2, 8, none,
    [fixedJson "fid-ipv6-version" 4 1 "06", fixedJson "fid-ipv6-trafficclass" 8 1 "00",
      fixedJson "fid-ipv6-flowlabel" 20 1 "00", fixedJson "fid-ipv6-payload-length" 16 1 "0008",
      fixedJson "fid-ipv6-nextheader" 8 1 "11", fixedJson "fid-ipv6-hoplimit" 8 1 "40",
      fixedJson "fid-ipv6-devprefix" 64 1 "01", fixedJson "fid-ipv6-deviid" 64 1 "02",
      fixedJson "fid-ipv6-appprefix" 64 1 "03", fixedJson "fid-ipv6-appiid" 64 1 "04",
      fixedJson "fid-udp-dev-port" 16 1 "1633", fixedJson "fid-udp-app-port" 16 1 "1634",
      fixedJson "fid-udp-length" 16 1 "0008", computedJson "fid-udp-checksum" 16]⟩]⟩

def summedRule : Rule :=
  ⟨⟨2, 8⟩,
    [fixedEntry (.ipv6 (.known .ipv6Version)) 4 1 0 [6],
      fixedEntry (.ipv6 (.known .ipv6TrafficClass)) 8 1 1 [0],
      fixedEntry (.ipv6 (.known .ipv6FlowLabel)) 20 1 2 [0],
      fixedEntry (.ipv6 (.known .ipv6PayloadLength)) 16 1 3 [0, 8],
      fixedEntry (.ipv6 (.known .ipv6NextHeader)) 8 1 4 [17],
      fixedEntry (.ipv6 (.known .ipv6HopLimit)) 8 1 5 [64],
      fixedEntry (.ipv6 (.known .ipv6DevPrefix)) 64 1 6 [1],
      fixedEntry (.ipv6 (.known .ipv6DevIid)) 64 1 7 [2],
      fixedEntry (.ipv6 (.known .ipv6AppPrefix)) 64 1 8 [3],
      fixedEntry (.ipv6 (.known .ipv6AppIid)) 64 1 9 [4],
      fixedEntry (.udp (.known .udpDevPort)) 16 1 10 [0x16, 0x33],
      fixedEntry (.udp (.known .udpAppPort)) 16 1 11 [0x16, 0x34],
      fixedEntry (.udp (.known .udpLength)) 16 1 12 [0, 8],
      computedEntry (.udp (.known .udpChecksum)) 16 13], .compression⟩

def summedRegistry : SidRegistry :=
  .ofItems [⟨2860, "fid-ipv6-version"⟩, ⟨2861, "fid-ipv6-trafficclass"⟩,
    ⟨2862, "fid-ipv6-flowlabel"⟩, ⟨2863, "fid-ipv6-nextheader"⟩, ⟨2864, "fid-ipv6-hoplimit"⟩,
    ⟨2865, "fid-ipv6-devprefix"⟩, ⟨2866, "fid-ipv6-deviid"⟩, ⟨2867, "fid-ipv6-appprefix"⟩,
    ⟨2868, "fid-ipv6-appiid"⟩, ⟨2869, "fid-ipv6-payload-length"⟩, ⟨2870, "fid-udp-dev-port"⟩,
    ⟨2871, "fid-udp-app-port"⟩, ⟨2872, "fid-udp-checksum"⟩, ⟨2873, "fid-udp-length"⟩,
    ⟨2880, "di-bidirectional"⟩, ⟨2900, "mo-equal"⟩, ⟨2901, "mo-ignore"⟩, ⟨2920, "cda-not-sent"⟩,
    ⟨2921, "cda-compute"⟩]

def summedContext : RuleContext := ⟨⟨[summedRule], summedRegistry⟩⟩

theorem summedContext_loaded : summedContext.Loaded := by
  have rules : mapIndexed (loadJsonRule summedRegistry) 0 summedFile.rules = .ok [summedRule] := by
    decide +kernel
  refine .json summedFile summedRegistry ?_
  rw [RuleContext.fromJson, rules]
  rfl

/-- What the rule stores, whatever follows its identifier. -/
def summedFields : FieldStore :=
  match decodeFields summedRule .down none (readerAt [2] 8 (by decide) 8) with
  | .ok (fields, _) => fields
  | .error _ => []

theorem decodes_summed (reader : BitReader) :
    decodeFields summedRule .down none reader = .ok (summedFields, reader.skip 0) := by
  have short : ∃ last, decodeFields summedRule .down none (readerAt [2] 8 (by decide) 8) =
      .ok (summedFields, last) := by
    refine ⟨readerAt [2] 8 (by decide) 8, ?_⟩
    decide +kernel
  obtain ⟨last, ran⟩ := short
  obtain ⟨n, few, -, anywhere⟩ := Stream.streaming_extend (s := reader)
    (streaming_decodeFields summedRule .down none) ran (List.nil_prefix)
  obtain rfl : n = 0 := Nat.le_zero.mp few
  exact anywhere

theorem stores_summed :
    headerOnlyIcmpError summedFields = .ok false ∧
    reconstructPacketAtBy tryTransportChecksum packetDepth .down summedFields .outer =
      .ok emptyUdpPacket ∧
    summedFields.containsFieldScope (.ipv6 (.known .ipv6PayloadLength)) .outer = true ∧
    summedFields.containsFieldScope (.udp (.known .udpLength)) .outer = true ∧
    ¬ summedFields.containsFieldScope (.udp (.known .udpChecksum)) .outer = true ∧
    summedFields.hasExplicitPayload = false := by decide +kernel

section
variable {suffix : List UInt8}

theorem joins_summed :
    joinSuffixBy tryTransportChecksum .down summedFields suffix = .ok (emptyUdpPacket ++ suffix) := by
  obtain ⟨plain, rebuilt, -⟩ := stores_summed
  rw [joinSuffixBy, plain, ok_bind, if_neg (by decide), rebuilt]
  rfl

/-- The sum over the header and the suffix is at least that over the suffix. -/
theorem patches_summed (large : 2 ^ 32 ≤ wordSum suffix) :
    patchChecksumBy tryTransportChecksum summedFields (.udp (.known .udpChecksum)) 46 17
      (emptyUdpPacket ++ suffix) = panicAt additionOverflow := by
  obtain ⟨-, -, -, -, absent, -⟩ := stores_summed
  have length : (emptyUdpPacket ++ suffix).length = 48 + suffix.length := List.length_append
  have zeroed : overwrite (emptyUdpPacket ++ suffix) 46 [0, 0] =
      overwrite emptyUdpPacket 46 [0, 0] ++ suffix :=
    overwrite_middle (emptyUdpPacket.take 46) suffix (show [0xd3, 0x6d].length = 2 from rfl)
  have segment : (overwrite emptyUdpPacket 46 [0, 0] ++ suffix).drop 40 =
      (overwrite emptyUdpPacket 46 [0, 0]).drop 40 ++ suffix := rfl
  have whole : (overwrite emptyUdpPacket 46 [0, 0] ++ suffix).length = 48 + suffix.length :=
    List.length_append
  have overflows : ∀ n, ¬ wordSum (pseudoHeader (cut (emptyUdpPacket ++ suffix) 8 24)
      (cut (emptyUdpPacket ++ suffix) 24 40) 17 n ++
        ((overwrite emptyUdpPacket 46 [0, 0]).drop 40 ++ suffix)) < 2 ^ 32 := by
    intro n
    have header : (pseudoHeader (cut (emptyUdpPacket ++ suffix) 8 24)
        (cut (emptyUdpPacket ++ suffix) 24 40) 17 n).length % 2 = 0 := by
      rw [pseudoHeader]
      simp only [List.length_append, length_toBytes]
      rw [length_cut (by omega), length_cut (by omega)]
      rfl
    have front : ((overwrite emptyUdpPacket 46 [0, 0]).drop 40).length % 2 = 0 := rfl
    rw [wordSum_append _ header, wordSum_append _ front]
    omega
  rw [patchChecksumBy, if_neg absent, slice_eq (by omega) (by omega), ok_bind,
    slice_eq (by omega) (by omega), ok_bind,
    copyInto_eq (by rw [length]; exact Nat.le_trans (by decide) (Nat.le_add_right 48 _)), ok_bind,
    zeroed, slice_eq (by omega) (Nat.le_refl _), ok_bind,
    cut_to_end, segment, tryTransportChecksum_eq, accumulated, if_neg (overflows _)]
  rfl

theorem rebuilds_summed (large : 2 ^ 32 ≤ wordSum suffix) :
    rebuildBy tryTransportChecksum .down summedFields (some suffix) = panicAt additionOverflow := by
  obtain ⟨-, -, sent, sentUdp, -⟩ := stores_summed
  have length : (emptyUdpPacket ++ suffix).length = 48 + suffix.length := List.length_append
  have udp : byteAt (emptyUdpPacket ++ suffix) 6 = 17 := rfl
  rw [rebuildBy, reconstructPacketWithSuffixBy, joins_summed, ok_bind, if_neg (by omega),
    index_eq (by omega), ok_bind, patchLength, if_pos sent, ok_bind, udp, patchUpperBy,
    if_pos rfl, patchUdpBy, if_neg (by omega), patchLength, if_pos sentUdp, ok_bind,
    patches_summed large]
  rfl

theorem reads_summed {reader : BitReader} (carried : reader.unread = ofBytes suffix)
    (filled : suffix ≠ []) (compressed : List UInt8) :
    ∃ last, readSuffix compressed summedFields reader = .ok (some suffix, last) := by
  obtain ⟨-, -, -, -, -, implicit⟩ := stores_summed
  have remaining : reader.remaining = 8 * suffix.length := by
    rw [← BitReader.length_unread, carried, length_ofBytes]
  have some : 0 < suffix.length := List.length_pos_iff.mpr filled
  have here : reader.unread = ofBytes suffix ++ [] := by rw [carried, List.append_nil]
  have read := BitReader.readBytesPadded_bytes here
  refine ⟨reader.skip (8 * suffix.length), ?_⟩
  unfold readSuffix
  change (if reader.remaining ≥ 8 then _ else _ : BitReader.Read (Option (List UInt8))) reader = _
  rw [if_pos (by omega), if_neg (by simp [implicit]), if_neg (by omega), Stream.bind_run, remaining,
    read]
  rfl

/-- The accumulator overflows on a datagram of this rule that carries so much. -/
theorem decompress_summed (large : 2 ^ 32 ≤ wordSum suffix) :
    Decompressor.decompressWithBitLenDetailedBy tryTransportChecksum ⟨summedContext, none⟩ .device
      (2 :: suffix) (8 * (suffix.length + 1)) = panicAt additionOverflow := by
  have inside : 8 * (suffix.length + 1) ≤ (2 :: suffix).length * 8 := by
    rw [List.length_cons]
    omega
  have meaningful : meaningfulBits (2 :: suffix) (8 * (suffix.length + 1)) =
      summedRule.id.bits ++ ofBytes suffix := by
    rw [meaningfulBits, List.take_of_length_le (by rw [length_ofBytes, List.length_cons]), ofBytes_cons]
    rfl
  have selected : selectRule (2 :: suffix) (8 * (suffix.length + 1)) summedContext.rules.rules =
      .ok (summedRule, readerAt (2 :: suffix) (8 * (suffix.length + 1)) inside 8) := by
    have valid := summedContext_loaded.valid
    have member : summedRule ∈ summedContext.rules.rules := List.mem_cons_self
    refine selectRule_of_starts (fun rule member => (valid.rules rule member).id) valid.prefixFree
      member inside ?_
    rw [meaningful]
    exact List.prefix_append _ _
  have filled : suffix ≠ [] := by
    rintro rfl
    exact absurd large (by decide)
  have carried : ((readerAt (2 :: suffix) (8 * (suffix.length + 1)) inside 8).skip 0).unread =
      ofBytes suffix := by
    rw [skip_readerAt, unread_readerAt, meaningful]
    rfl
  obtain ⟨last, ended⟩ := reads_summed carried filled (2 :: suffix)
  rw [Decompressor.decompressWithBitLenDetailedBy, selected, ok_bind]
  have decoded : decodeCompressedBy tryTransportChecksum summedRule .down none (2 :: suffix)
      (readerAt (2 :: suffix) (8 * (suffix.length + 1)) inside 8) = panicAt additionOverflow := by
    rw [decodeCompressedBy, decodes_summed, ok_bind]
    dsimp only
    rw [ended, ok_bind]
    exact rebuilds_summed large
  have packet : Decompressor.decodePacketBy tryTransportChecksum ⟨summedContext, none⟩ .device
      (2 :: suffix) summedRule (readerAt (2 :: suffix) (8 * (suffix.length + 1)) inside 8) =
      panicAt additionOverflow := decoded
  dsimp only
  rw [packet]
  rfl

end

theorem wordSum_ones (n : Nat) : wordSum (List.replicate (2 * n) 255) = n * 65535 := by
  induction n with
  | zero => rfl
  | succ n ih =>
    rw [Nat.mul_succ, List.replicate_succ, List.replicate_succ, wordSum, ih]
    simp
    omega

/-- 131080 bytes of ones behind the identifier. -/
theorem accumulator_overflows :
    summedContext.Loaded ∧
      Decompressor.decompressWithBitLenDetailedBy tryTransportChecksum ⟨summedContext, none⟩ .device
        (2 :: List.replicate (2 * 65540) 255) (8 * 131081) = panicAt additionOverflow := by
  have length : (List.replicate (2 * 65540) (255 : UInt8)).length = 131080 := List.length_replicate
  have large : 2 ^ 32 ≤ wordSum (List.replicate (2 * 65540) 255) := by
    rw [wordSum_ones]
    decide
  have overflow := decompress_summed large
  rw [length] at overflow
  exact ⟨summedContext_loaded, overflow⟩

end SchcCore
