import SchcCore.Packet.Builder
import SchcCore.Rule.Load

/- Rule-driven SCHC decompression engine. -/
namespace SchcCore
open Outcome FieldStore

structure DecompressedDatagram where
  packet : List UInt8
  ruleId : RuleId
  deriving DecidableEq

structure Decompressor where
  context : RuleContext
  provider : Option ExternalValueProvider

def Decompressor.new (context : RuleContext) : Decompressor := ⟨context, none⟩

def Decompressor.withExternalValueProvider (context : RuleContext)
    (provider : ExternalValueProvider) : Decompressor := ⟨context, some provider⟩

/-- The bits of `bytes` from `bitLen` on are zero. -/
def zeroPaddingBits (bytes : List UInt8) (bitLen : Nat) : Bool :=
  ((List.finRange (bytes.length * 8)).drop bitLen).all (fun i =>
    (Bytes.byteIn bytes (i / 8) (by omega) >>> UInt8.ofNat (7 - i % 8)) &&& 1 = 0)

/-- Sorted and without repetitions, the lengths must be exactly one. -/
def uniquePaddingBitLength (lengths : List Nat) : Result Nat :=
  match (lengths.insertionSort (· ≤ ·)).destutter (· ≠ ·) with
  | [bitLen] => .ok bitLen
  | [] => fail .noMatchingRule
  | lengths => fail (.ambiguousPadding lengths)

def selectRule (compressed : List UInt8) (bitLen : Nat) : List Rule → Result (Rule × BitReader)
  | [] => fail .noMatchingRule
  | rule :: rules => do
      let reader ← BitReader.withBitLen compressed bitLen
      if reader.remaining < rule.id.bitLen then selectRule compressed bitLen rules
      else do
        let (value, reader) ← BitReader.readBits rule.id.bitLen reader
        if value = rule.id.value then .ok (rule, reader) else selectRule compressed bitLen rules

def inverseDirection : Position → Direction
  | .device => .down
  | .core => .up

/-- The field position check of the decompressor. -/
def positionApplies (position : Nat) (scope : PacketScope) (field : FieldRef) : Bool :=
  if position = 0 then true
  else
    match field with
    | .coapOption _ => true
    | _ =>
        match scope with
        | .outer => position = 1
        | .embedded => position = 2

def FieldStore.outerIcmpError (fields : FieldStore) : Bool :=
  match fields.firstByFieldScope (.icmpv6 (.known .icmpv6Type)) .outer with
  | some value => value.toU64.toOption.any valueIsIcmpError
  | none => false

def FieldStore.outerNextHeaderIcmp (fields : FieldStore) : Bool :=
  match fields.firstByFieldScope (.ipv6 (.known .ipv6NextHeader)) .outer with
  | some value => value.toU64.toOption = some 58
  | none => false

structure DecodeState where
  fields : FieldStore
  lengths : LengthResolver
  scope : PacketScope
  deriving DecidableEq

def DecodeState.initial : DecodeState := ⟨[], LengthResolver.new, .outer⟩

/-- The scope an entry is decoded in: a second IPv6 version field of an ICMPv6 error opens
    the embedded packet. -/
def DecodeState.enter (state : DecodeState) (field : FieldRef) : PacketScope :=
  if state.scope = .outer ∧ field = .ipv6 (.known .ipv6Version) ∧ state.fields.outerIcmpError ∧
      state.fields.containsFieldScope (.ipv6 (.known .ipv6Version)) .outer then .embedded
  else state.scope

def isTransportField : FieldRef → Bool
  | .udp _ => true
  | .coap _ => true
  | .coapOption _ => true
  | _ => false

/-- A transport entry in front of the embedded IPv6 header. -/
def DecodeState.transportTooEarly (state : DecodeState) (scope : PacketScope)
    (field : FieldRef) : Bool :=
  scope = .outer && isTransportField field && state.fields.outerNextHeaderIcmp &&
    state.fields.outerIcmpError

def notSentTargetBitLen (field : FieldRule) : Result Nat :=
  match field.target with
  | .bytes bytes => .ok (bytes.length * 8)
  | _ => invalidResidue ("not-sent field " ++ field.field.debug ++ " requires a byte target")

def decodeFieldLen (field : FieldRule) (lengths : LengthResolver) (fields : FieldStore) :
    BitReader.Read Nat :=
  match field.length, field.action with
  | .variableBytes, .notSent => monadLift (notSentTargetBitLen field)
  | .variableBits, .notSent => monadLift (notSentTargetBitLen field)
  | .variableBytes, .mappingSent => pure 0
  | .variableBits, .mappingSent => pure 0
  | .variableBytes, _ => do
      let bytes ← readVariableLengthPrefix
      pure (bytes * 8)
  | .variableBits, _ => readVariableLengthPrefix
  | length, _ => monadLift (lengths.resolve length fields)

/-- The table entry an index selects, as a value of its own length. -/
def mappingValue (values : List (List UInt8)) (index : Nat) : Result FieldValue :=
  match values[index]? with
  | some value => bytesAsValue value (value.length * 8)
  | none => invalidResidue s!"mapping index {index} is out of range"

def decodeMappingSent (target : TargetValue) : BitReader.Read FieldValue :=
  match target with
  | .mapping values =>
      if mappingIndexBits values.length = 0 then monadLift (mappingValue values 0)
      else do
        let index ← BitReader.readBits (mappingIndexBits values.length)
        monadLift (mappingValue values index)
  | _ => monadLift (invalidResidue "mapping-sent requires a mapping target" : Result FieldValue)

/-- The matched leading bits of the target, in a fresh writer. -/
def lsbTarget (field : FieldRule) (bitLen msbBits : Nat) : Result BitWriter := do
  let target ← targetAsValue field.target bitLen
  match target with
  | some target => target.writeRangeTo BitWriter.new 0 msbBits
  | none => invalidResidue "lsb requires a byte target"

def decodeLsb (field : FieldRule) (bitLen : Nat) : BitReader.Read FieldValue :=
  match field.matching with
  | .msb msbBits =>
      if msbBits > bitLen then
        monadLift (fail (.invalidBitLength "decompress_msb" msbBits) : Result FieldValue)
      else do
        let writer ← monadLift (lsbTarget field bitLen msbBits)
        let writer ← BitReader.copyTo writer (bitLen - msbBits)
        monadLift (FieldValue.fromBytes writer.toVec bitLen)
  | _ => monadLift (invalidResidue "lsb requires an msb matching operator" : Result FieldValue)

def notSentValue (field : FieldRule) (bitLen : Nat) : Result FieldValue := do
  let value ← targetAsValue field.target bitLen
  match value with
  | some value => .ok value
  | none => invalidResidue ("not-sent field " ++ field.field.debug ++ " requires a byte target")

def externalValue (field : FieldRule) (bitLen : Nat) (direction : Direction)
    (provider : Option ExternalValueProvider) : Result FieldValue :=
  match provider with
  | none => invalidResidue "external IID CDA requires an ExternalValueProvider"
  | some provider =>
      match provider field.field direction bitLen with
      | .error error => fail error
      | .ok bytes =>
          let expectedBytes := (bitLen + 7) / 8
          if bytes.length ≠ expectedBytes then
            invalidResidue
              ("external value for " ++ field.field.debug ++
                s!" has {bytes.length} bytes; expected {expectedBytes} bytes for {bitLen} bits")
          else bytesAsValue bytes bitLen

def decodeFieldValue (field : FieldRule) (bitLen : Nat) (direction : Direction)
    (provider : Option ExternalValueProvider) : BitReader.Read FieldValue :=
  match field.action with
  | .notSent => monadLift (notSentValue field bitLen)
  | .valueSent => FieldValue.readFrom bitLen
  | .mappingSent => decodeMappingSent field.target
  | .lsb => decodeLsb field bitLen
  | .deviceIid => monadLift (externalValue field bitLen direction provider)
  | .appIid => monadLift (externalValue field bitLen direction provider)
  | .compute =>
      monadLift (panicAt (.unreachable "compute fields are skipped before decoding") :
        Result FieldValue)

/-- The token length that a decoded field makes known. -/
def decodedLengths (lengths : LengthResolver) (field : FieldRef) (value : FieldValue) :
    Result LengthResolver :=
  if field = .coap (.known .coapTkl) then do
    let tokenLength ← value.toU64
    .ok (lengths.setTokenLength tokenLength)
  else .ok lengths

/-- Decoding of an entry that is stored, in the scope it enters. -/
def decodeEntry (field : FieldRule) (direction : Direction)
    (provider : Option ExternalValueProvider) (scope : PacketScope) (state : DecodeState) :
    BitReader.Read DecodeState := do
  let bitLen ← decodeFieldLen field state.lengths state.fields
  let fieldDirection := if scope = .embedded then reverseDirection direction else direction
  let value ← decodeFieldValue field bitLen fieldDirection provider
  let lengths ← monadLift (decodedLengths state.lengths field.field value)
  let key : FieldKey := ⟨field.field, field.fieldPosition, field.entryIndex, scope⟩
  pure ⟨state.fields.insert key value, lengths, scope⟩

/-- One round of the loop of `decode_fields`. -/
def decodeField (field : FieldRule) (direction : Direction)
    (provider : Option ExternalValueProvider) (state : DecodeState) :
    BitReader.Read DecodeState :=
  if field.field = .syntheticCoapMarker then pure state
  else if field.action = .compute then pure state
  else
    let scope := state.enter field.field
    if state.transportTooEarly scope field.field then
      monadLift (invalidResidue "embedded transport field appears before embedded IPv6 scope" :
        Result DecodeState)
    else if ¬ positionApplies field.fieldPosition scope field.field then
      monadLift (invalidResidue
        (s!"unsupported field position {field.fieldPosition} for " ++ field.field.debug ++
          " in " ++ scope.debug ++ " scope") : Result DecodeState)
    else decodeEntry field direction provider scope state

def decodeFieldList (direction : Direction) (provider : Option ExternalValueProvider) :
    List FieldRule → DecodeState → BitReader.Read DecodeState
  | [], state => pure state
  | field :: fields, state => do
      let state ← decodeField field direction provider state
      decodeFieldList direction provider fields state

/-- The entries of a rule that are active in a direction. -/
def Rule.active (rule : Rule) (direction : Direction) : List FieldRule :=
  rule.fields.filter (fun field => field.direction.accepts direction)

def decodeFields (rule : Rule) (direction : Direction)
    (provider : Option ExternalValueProvider) : BitReader.Read FieldStore := do
  let state ← decodeFieldList direction provider (rule.active direction) .initial
  pure state.fields

/-- `while reader.remaining() > 0 { nonzero |= reader.read_bits(1)? != 0; }` -/
def anyBitSet : Nat → Bool → BitReader.Read Bool
  | 0, nonzero => pure nonzero
  | bits + 1, nonzero => do
      let bit ← BitReader.readBits 1
      anyBitSet bits (nonzero || bit != 0)

def validatePadding : BitReader.Read Unit := do
  let reader ← get
  let remaining := reader.remaining
  if remaining ≥ 8 then
    monadLift (invalidResidue s!"{remaining} trailing residue bits remain" : Result Unit)
  else
    let nonzero ← anyBitSet remaining false
    if nonzero then
      monadLift (invalidResidue "non-zero padding bit after structured residue" : Result Unit)
    else if remaining ≠ 0 then
      monadLift (invalidResidue
        s!"meaningful bit length includes {remaining} trailing zero bits" : Result Unit)
    else pure ()

/-- The packet of a no-compression datagram: every byte after the rule ID. -/
def decodeNoCompressionPayload (reader : BitReader) : Result (List UInt8) :=
  let remaining := reader.remaining
  if remaining % 8 ≠ 0 then do
    let tail ← reader.setPosition (reader.position + remaining - remaining % 8)
    let (nonzero, _) ← anyBitSet tail.remaining false tail
    let reason := if nonzero then "non-zero padding bit after no-compression packet"
      else "no-compression packet is not byte aligned"
    invalidResidue (reason ++ s!": {remaining} trailing bits remain")
  else do
    let (packet, _) ← BitReader.readBytesPadded remaining reader
    validatePacketLengths packet
    .ok packet

/-- What follows the residue: a byte-aligned suffix, or nothing. -/
def readSuffix (compressed : List UInt8) (fields : FieldStore) :
    BitReader.Read (Option (List UInt8)) := do
  let reader ← get
  let remaining := reader.remaining
  if remaining ≥ 8 then
    if fields.hasExplicitPayload then
      monadLift (invalidResidue s!"{remaining} trailing residue bits remain" :
        Result (Option (List UInt8)))
    else if remaining % 8 ≠ 0 then
      monadLift (invalidResidue
        (s!"unread packet suffix is not byte aligned: " ++
          s!"{compressed.length * 8 - reader.position} trailing bits remain") :
        Result (Option (List UInt8)))
    else do
      let suffix ← BitReader.readBytesPadded remaining
      pure (some suffix)
  else do
    validatePadding
    pure none

def rebuild (direction : Direction) (fields : FieldStore) : Option (List UInt8) →
    Result (List UInt8)
  | some suffix => reconstructPacketWithSuffix direction fields suffix
  | none => reconstructPacket direction fields

/-- Decoding after a compression or management rule with entries. -/
def decodeCompressed (rule : Rule) (direction : Direction)
    (provider : Option ExternalValueProvider) (compressed : List UInt8) (reader : BitReader) :
    Result (List UInt8) := do
  let (fields, reader) ← decodeFields rule direction provider reader
  let (suffix, _) ← readSuffix compressed fields reader
  rebuild direction fields suffix

namespace Decompressor

/-- The packet behind the rule ID, as the rule's nature has it. -/
def decodePacket (d : Decompressor) (position : Position) (compressed : List UInt8) (rule : Rule)
    (reader : BitReader) : Result (List UInt8) :=
  match rule.nature with
  | .compression | .management =>
      if rule.fields.isEmpty then decodeNoCompressionPayload reader
      else decodeCompressed rule (inverseDirection position) d.provider compressed reader
  | .noCompression => decodeNoCompressionPayload reader
  | .fragmentation => fail (.unsupportedRuleNature rule.nature.asStr)

/-- `decompress_with_bit_len_policy` -/
def decompressWithBitLenDetailed (d : Decompressor) (position : Position)
    (compressed : List UInt8) (bitLen : Nat) : Result DecompressedDatagram := do
  let (rule, reader) ← selectRule compressed bitLen d.context.rules.rules
  let packet ← d.decodePacket position compressed rule reader
  .ok ⟨packet, rule.id⟩

def decompressWithBitLen (d : Decompressor) (position : Position) (compressed : List UInt8)
    (bitLen : Nat) : Result (List UInt8) := do
  let datagram ← d.decompressWithBitLenDetailed position compressed bitLen
  .ok datagram.packet

/-- The successes and the first error over the permissible paddings. -/
structure PaddingTrials where
  successes : List (Nat × DecompressedDatagram)
  lastError : Option SchcError

/-- `for padding_bits in 0..=full_len.min(7)`, from `paddingBits` on. -/
def tryPaddings (d : Decompressor) (position : Position) (compressed : List UInt8) :
    List Nat → PaddingTrials → Result PaddingTrials
  | [], trials => .ok trials
  | paddingBits :: paddings, trials =>
      let bitLen := compressed.length * 8 - paddingBits
      if paddingBits ≠ 0 ∧ ¬ zeroPaddingBits compressed bitLen then
        d.tryPaddings position compressed paddings trials
      else
        match d.decompressWithBitLenDetailed position compressed bitLen with
        | .ok packet =>
            d.tryPaddings position compressed paddings
              { trials with successes := trials.successes ++ [(bitLen, packet)] }
        | .error (.fail error) =>
            d.tryPaddings position compressed paddings
              { trials with lastError := trials.lastError.or (some error) }
        | .error (.panic site) => .error (.panic site)

def selectTrial (trials : PaddingTrials) : Result DecompressedDatagram :=
  if trials.successes = [] then fail (trials.lastError.getD .noMatchingRule)
  else do
    let selected ← uniquePaddingBitLength (trials.successes.map (fun success => success.1))
    match trials.successes.find? (fun success => success.1 = selected) with
    | some (_, packet) => .ok packet
    | none => fail .noMatchingRule

def decompressDetailed (d : Decompressor) (position : Position) (compressed : List UInt8) :
    Result DecompressedDatagram := do
  let paddings := List.range (min (compressed.length * 8) 7 + 1)
  let trials ← d.tryPaddings position compressed paddings ⟨[], none⟩
  selectTrial trials

def decompress (d : Decompressor) (position : Position) (compressed : List UInt8) :
    Result (List UInt8) := do
  let datagram ← d.decompressDetailed position compressed
  .ok datagram.packet

end Decompressor
end SchcCore
