import SchcCore.Packet.Builder
import SchcCore.Tree.Build

/- Tree-guided SCHC compressor. -/
namespace SchcCore
open Outcome Bytes BigEndian FieldStore

structure CompressedDatagram where
  bytes : List UInt8
  bitLen : Nat
  ruleId : RuleId
  deriving DecidableEq

structure Compressor where
  context : RuleContext
  tree : DecisionTree

def Compressor.new (context : RuleContext) : Result Compressor := do
  let tree ← DecisionTree.build context.rules
  .ok ⟨context, tree⟩

structure CompressionState where
  residue : BitWriter
  fields : FieldStore
  lengths : LengthResolver
  coapOptionOrdinals : List Nat
  scope : PacketScope
  deriving DecidableEq

def CompressionState.initial : CompressionState := ⟨BitWriter.new, [], LengthResolver.new, [], .outer⟩

structure Candidate where
  ruleOrder : Nat
  datagram : CompressedDatagram
  deriving DecidableEq

structure MatchResult where
  mappingIndex : Option Nat
  msbBits : Option Nat
  coapOptionOrdinal : Option Nat
  deriving DecidableEq

/-- The parts of `TraversalContext` that a traversal changes. -/
structure TraversalContext where
  candidates : List Candidate
  natureErrors : List RuleNature
  branchErrors : List SchcError

/- Field extraction. -/

inductive Role where
  | device | application
  deriving DecidableEq, Repr

def roleAddress (p : Ipv6Packet) : Direction → Role → List UInt8
  | .up, .device => cutIn p.bytes 8 24 ⟨by decide, p.addresses (by decide)⟩
  | .down, .application => cutIn p.bytes 8 24 ⟨by decide, p.addresses (by decide)⟩
  | .up, .application => cutIn p.bytes 24 40 ⟨by decide, p.addresses (by decide)⟩
  | .down, .device => cutIn p.bytes 24 40 ⟨by decide, p.addresses (by decide)⟩

theorem length_roleAddress (p : Ipv6Packet) (direction : Direction) (role : Role) :
    (roleAddress p direction role).length = 16 := by
  cases direction <;> cases role <;> exact length_cut (p.addresses (by decide))

/-- `address[start..start + 8].try_into().unwrap()`, one half of an address -/
def addressHalf (p : Ipv6Packet) (direction : Direction) (role : Role) (start : Nat)
    (half : start ≤ 8) : List UInt8 :=
  cutIn (roleAddress p direction role) start (start + 8)
    ⟨Nat.le_add_right _ _, by rw [length_roleAddress]; omega⟩

def extractIpv6Field (packet : List UInt8) (direction : Direction) (name : FieldName) :
    Result FieldValue := do
  let ipv6 ← Ipv6Packet.parse packet
  let byte (i : Fin 40) := byteIn ipv6.bytes i (ipv6.inside i.isLt)
  match name with
  | .known .ipv6Version => FieldValue.fromU64 (byte 0 >>> 4).toNat 4
  | .known .ipv6TrafficClass =>
      FieldValue.fromU64 (((byte 0 &&& 0x0f).toNat <<< 4) ||| (byte 1 >>> 4).toNat) 8
  | .known .ipv6FlowLabel =>
      FieldValue.fromU64
        (((byte 1 &&& 0x0f).toNat <<< 16) ||| ((byte 2).toNat <<< 8) ||| (byte 3).toNat) 20
  | .known .ipv6PayloadLength => FieldValue.fromU64 (value [byte 4, byte 5]) 16
  | .known .ipv6NextHeader => FieldValue.fromU64 (byte 6).toNat 8
  | .known .ipv6HopLimit => FieldValue.fromU64 (byte 7).toNat 8
  | .known .ipv6DevPrefix =>
      FieldValue.fromU64 (value (addressHalf ipv6 direction .device 0 (by decide))) 64
  | .known .ipv6DevIid =>
      FieldValue.fromU64 (value (addressHalf ipv6 direction .device 8 (by decide))) 64
  | .known .ipv6AppPrefix =>
      FieldValue.fromU64 (value (addressHalf ipv6 direction .application 0 (by decide))) 64
  | .known .ipv6AppIid =>
      FieldValue.fromU64 (value (addressHalf ipv6 direction .application 8 (by decide))) 64
  | name => packetError "compression" ("unsupported IPv6 field " ++ name.text)

def extractUdpField (udp : UdpDatagram) (direction : Direction) (name : FieldName) :
    Result FieldValue :=
  let byte (i : Fin 8) := byteIn udp.bytes i (udp.inside i.isLt)
  match name with
  | .known .udpDevPort =>
      if direction = .up then FieldValue.fromU64 (value [byte 0, byte 1]) 16
      else FieldValue.fromU64 (value [byte 2, byte 3]) 16
  | .known .udpAppPort =>
      if direction = .up then FieldValue.fromU64 (value [byte 2, byte 3]) 16
      else FieldValue.fromU64 (value [byte 0, byte 1]) 16
  | .known .udpLength => FieldValue.fromU64 (value [byte 4, byte 5]) 16
  | .known .udpChecksum => FieldValue.fromU64 (value [byte 6, byte 7]) 16
  | .known .udpPayload =>
      FieldValue.fromBytes (tailIn udp.bytes 8 udp.header) ((udp.bytes.length - 8) * 8)
  | name => packetError "compression" ("unsupported UDP field " ++ name.text)

def extractCoapToken (coap : List UInt8) (bitLen : Option Nat) : Result FieldValue :=
  match bitLen with
  | none => invalidResidue "CoAP token length is not available"
  | some bitLen =>
      if bitLen % 8 ≠ 0 then packetError "CoAP" "token length is not byte aligned"
      else do
        let tokenLen := bitLen / 8
        let first ← index coap 0
        if tokenLen ≠ (first &&& 0x0f).toNat then
          packetError "CoAP" "token length does not match TKL"
        else if tokenLen > 8 then packetError "CoAP" "token length exceeds 8 bytes"
        else do
          let token ← slice coap 4 (4 + tokenLen)
          bytesAsValue token (tokenLen * 8)

def extractCoapField (coap : List UInt8) (name : FieldName) (bitLen : Option Nat) :
    Result FieldValue := do
  let message ← CoapMessage.parse coap
  match name with
  | .known .coapVersion => do
      let first ← index coap 0
      FieldValue.fromU64 (first >>> 6).toNat 2
  | .known .coapType => do
      let first ← index coap 0
      FieldValue.fromU64 ((first >>> 4) &&& 0x03).toNat 2
  | .known .coapTkl => do
      let first ← index coap 0
      FieldValue.fromU64 (first &&& 0x0f).toNat 4
  | .known .coapCode => do
      let code ← index coap 1
      FieldValue.fromU64 code.toNat 8
  | .known .coapMid => do
      let high ← index coap 2
      let low ← index coap 3
      FieldValue.fromU64 (value [high, low]) 16
  | .known .coapToken => extractCoapToken coap bitLen
  | .known .coapPayload => FieldValue.fromBytes message.payload (message.payload.length * 8)
  | name => packetError "compression" ("unsupported CoAP field " ++ name.text)

/-- Identifier and sequence: the two halves of an echo message's second word. -/
def extractEchoField (message : Icmpv6Message) (start : Nat) (half : start + 1 < 8)
    (reason : String) : Result FieldValue :=
  if other : ¬ message.isEcho ∨ message.bytes.length < 8 then packetError "ICMPv6" reason
  else
    FieldValue.fromU64
      (value [byteIn message.bytes start (by omega), byteIn message.bytes (start + 1) (by omega)])
      16

/-- MTU and pointer: the whole second word of an error of the expected type. -/
def extractTypeWord (message : Icmpv6Message) (expected : UInt8) : Result FieldValue :=
  if short : message.bytes.length < 8 then
    packetError "ICMPv6" "type-specific field is truncated"
  else if message.messageType ≠ expected then
    packetError "ICMPv6" "type-specific field does not match message type"
  else FieldValue.fromBytes (cutIn message.bytes 4 8 ⟨by decide, by omega⟩) 32

/-- Where `fid-icmpv6-payload` starts. -/
def icmpv6BodyOffset (message : Icmpv6Message) (structured : Bool) : Nat :=
  if structured then message.payloadOffset else 4

theorem icmpv6BodyOffset_le (message : Icmpv6Message) (structured : Bool) :
    icmpv6BodyOffset message structured ≤ message.bytes.length := by
  cases structured with
  | false => exact message.four_le
  | true => exact message.header

def extractIcmpv6Field (message : Icmpv6Message) (name : FieldName) (structured : Bool) :
    Result FieldValue :=
  let byte (i : Fin 4) := byteIn message.bytes i (message.inside i.isLt)
  match name with
  | .known .icmpv6Type => FieldValue.fromU64 (byte 0).toNat 8
  | .known .icmpv6Code => FieldValue.fromU64 (byte 1).toNat 8
  | .known .icmpv6Checksum => FieldValue.fromU64 (value [byte 2, byte 3]) 16
  | .known .icmpv6Identifier =>
      extractEchoField message 4 (by decide) "identifier is only defined for echo messages"
  | .known .icmpv6Sequence =>
      extractEchoField message 6 (by decide) "sequence is only defined for echo messages"
  | .known .icmpv6Mtu => extractTypeWord message 2
  | .known .icmpv6Pointer => extractTypeWord message 4
  | .known .icmpv6Payload =>
      let offset := icmpv6BodyOffset message structured
      FieldValue.fromBytes (tailIn message.bytes offset (icmpv6BodyOffset_le message structured))
        ((message.bytes.length - offset) * 8)
  | name => packetError "compression" ("unsupported ICMPv6 field " ++ name.text)

def extractUnusedField (packet : List UInt8) : Result FieldValue := do
  let source ← packetForScope packet .outer
  let ipv6 ← Ipv6Packet.parse source
  if ipv6.nextHeader ≠ 58 then
    packetError "ICMPv6" "fid-unused requires an ICMPv6 next header"
  else do
    let icmp ← Icmpv6Message.parse ipv6.payload
    if ¬ hasIcmpv6UnusedField icmp.messageType then
      packetError "ICMPv6"
        s!"fid-unused is not defined for ICMPv6 error type {icmp.messageType.toNat}"
    else if short : icmp.bytes.length < 8 then
      packetError "ICMPv6" "error header is shorter than 8 bytes"
    else FieldValue.fromBytes (cutIn icmp.bytes 4 8 ⟨by decide, by omega⟩) 32

/-- The `Debug` text of a direction. -/
def Direction.debug : Direction → String
  | .up => "Up"
  | .down => "Down"

def extractGenericPayload (packet : List UInt8) (direction : Direction) (coapPresent : Bool) :
    Result FieldValue := do
  let source ← packetForScope packet .outer
  let ipv6 ← Ipv6Packet.parse source
  if ipv6.nextHeader = 17 then do
    let udp ← UdpDatagram.parse ipv6.payload
    if coapPresent then do
      let coap ← CoapMessage.parse udp.payload
      FieldValue.fromBytes coap.payload (coap.payload.length * 8)
    else FieldValue.fromBytes udp.payload (udp.payload.length * 8)
  else if ipv6.nextHeader = 58 then do
    let icmp ← Icmpv6Message.parse ipv6.payload
    FieldValue.fromBytes icmp.payload (icmp.payload.length * 8)
  else
    packetError "compression"
      (s!"unsupported generic payload next header {ipv6.nextHeader.toNat} for " ++
        direction.debug ++ " direction")

def selectCoapOption (coap : CoapMessage) (number occurrence : Nat) :
    Result (Nat × CoapOption) :=
  let indexed := coap.options.zipIdx
  match (indexed.filter (fun entry => entry.1.number.toNat = number))[occurrence]? with
  | some (option, ordinal) => .ok (ordinal, option)
  | none =>
      match indexed[occurrence]? with
      | some (option, ordinal) =>
          if option.number.toNat = number then .ok (ordinal, option) else fail .noMatchingRule
      | none => fail .noMatchingRule

/-- The CoAP message of an outer UDP packet. -/
def outerCoap (packet : List UInt8) : Result CoapMessage := do
  let ipv6 ← Ipv6Packet.parse packet
  let udp ← UdpDatagram.parse ipv6.payload
  CoapMessage.parse udp.payload

def extractCoapOptionOrdinal (packet : List UInt8) (parse : ParseStep) (scope : PacketScope) :
    Result Nat :=
  if scope = .embedded then
    packetError "compression" "CoAP option is outside supported embedded scope"
  else
    match parse.field with
    | .coapOption number =>
        if parse.fieldPosition = 0 then fail .noMatchingRule
        else do
          let coap ← outerCoap packet
          let (ordinal, _) ← selectCoapOption coap number (parse.fieldPosition - 1)
          .ok ordinal
    | _ => fail .noMatchingRule

/-- Whether the second ICMPv6 word is covered by a field of its own. -/
def icmpv6Structured (fields : FieldStore) (scope : PacketScope) : Bool :=
  fields.any (fun entry => entry.1.scope = scope && match entry.1.field with
    | .icmpv6 (.known .icmpv6Identifier) => true
    | .icmpv6 (.known .icmpv6Sequence) => true
    | .icmpv6 (.known .icmpv6Mtu) => true
    | .icmpv6 (.known .icmpv6Pointer) => true
    | _ => false)

def extractField (packet : List UInt8) (direction : Direction) (parse : ParseStep)
    (bitLen : Option Nat) (scope : PacketScope) (coapPresent : Bool) (state : CompressionState) :
    Result FieldValue := do
  let source ← packetForScope packet scope
  let sourceDirection := if scope = .embedded then reverseDirection direction else direction
  match parse.field with
  | .ipv6 name => extractIpv6Field source sourceDirection name
  | .udp name => do
      let ipv6 ← Ipv6Packet.parse source
      let udp ← UdpDatagram.parse ipv6.payload
      extractUdpField udp sourceDirection name
  | .coap name =>
      if scope = .embedded then
        packetError "compression" "CoAP field is outside supported embedded scope"
      else do
        let ipv6 ← Ipv6Packet.parse source
        let udp ← UdpDatagram.parse ipv6.payload
        extractCoapField udp.payload name bitLen
  | .coapOption number =>
      if scope = .embedded then
        packetError "compression" "CoAP option is outside supported embedded scope"
      else do
        let coap ← outerCoap source
        if parse.fieldPosition = 0 then fail .noMatchingRule
        else do
          let (_, option) ← selectCoapOption coap number (parse.fieldPosition - 1)
          FieldValue.fromBytes option.value (option.value.length * 8)
  | .icmpv6 name =>
      if scope = .embedded then
        packetError "compression" "ICMPv6 field is outside supported embedded scope"
      else do
        let ipv6 ← Ipv6Packet.parse source
        let icmp ← Icmpv6Message.parse ipv6.payload
        extractIcmpv6Field icmp name (icmpv6Structured state.fields scope)
  | .unused =>
      if scope = .embedded then
        packetError "compression" "fid-unused is only valid in an outer ICMPv6 error"
      else if bitLen ≠ some 32 then
        invalidResidue "fid-unused requires a 32-bit length for ICMPv6 error processing"
      else extractUnusedField source
  | .payload => extractGenericPayload source sourceDirection coapPresent
  | .syntheticCoapMarker => packetError "compression" "unsupported synthetic CoAP marker field"
  | .unknownSid sid => fail (.unknownSid sid)

/- Matching and residue. -/

def fieldBit (value : FieldValue) (i : Nat) : Result Bool := do
  let byte ← index value.bytes (i / 8)
  .ok ((byte >>> UInt8.ofNat (7 - i % 8)) &&& 1 = 1)

/-- `(start..start + count).all(|index| field_bit(left, index) == field_bit(right, index))` -/
def bitsEqual (left right : FieldValue) (start : Nat) : Nat → Result Bool
  | 0 => .ok true
  | count + 1 => do
      let l ← fieldBit left start
      let r ← fieldBit right start
      if l = r then bitsEqual left right (start + 1) count else .ok false

def prefixBitsEqual (left right : FieldValue) (bitLen : Nat) : Result Bool :=
  if left.bitLen = right.bitLen then bitsEqual left right 0 bitLen else .ok false

/-- The first mapping entry that equals the field. -/
def selectMapping (field : FieldValue) : Nat → List (List UInt8) → Result (Option Nat)
  | _, [] => .ok none
  | index, bytes :: values => do
      let value ← bytesAsValue bytes field.bitLen
      if value = field then .ok (some index) else selectMapping field (index + 1) values

def matchesBranch (field : FieldValue) (branch : Branch) : Result (Option MatchResult) :=
  match branch.matching with
  | .equal => do
      let target ← targetAsValue branch.target field.bitLen
      if target = some field then .ok (some ⟨none, none, none⟩) else .ok none
  | .ignore => .ok (some ⟨none, none, none⟩)
  | .msb bits =>
      if bits > field.bitLen then fail (.invalidBitLength "msb" bits)
      else do
        let target ← targetAsValue branch.target field.bitLen
        match target with
        | none => .ok none
        | some target => do
            let same ← prefixBitsEqual field target bits
            .ok (if same then some ⟨none, some bits, none⟩ else none)
  | .matchMapping =>
      match branch.target with
      | .mapping values => do
          let index ← selectMapping field 0 values
          .ok (index.map (fun index => ⟨some index, none, none⟩))
      | _ => .ok none

/-- The length prefix in front of a sent value or its low bits. -/
def writeLengthPrefix (writer : BitWriter) (field : FieldValue) (length : FieldLength) :
    Result BitWriter :=
  match length with
  | .variableBytes =>
      if field.bitLen % 8 ≠ 0 then invalidResidue "variable byte field is not byte aligned"
      else writeVariableLengthPrefix writer (field.bitLen / 8)
  | .variableBits => writeVariableLengthPrefix writer field.bitLen
  | _ => .ok writer

def writeResidue (writer : BitWriter) (field : FieldValue) (branch : Branch)
    (matched : MatchResult) : Result BitWriter :=
  match branch.action with
  | .notSent | .compute | .deviceIid | .appIid => .ok writer
  | .valueSent => do
      let writer ← writeLengthPrefix writer field branch.parse.length
      if field.bitLen = 0 then .ok writer else field.writeTo writer
  | .mappingSent =>
      match matched.mappingIndex with
      | none => invalidResidue "mapping-sent requires a selected mapping entry"
      | some index =>
          match branch.target with
          | .mapping values =>
              let bitLen := mappingIndexBits values.length
              if bitLen = 0 then .ok writer else writer.writeBits index bitLen
          | _ => invalidResidue "mapping-sent requires a mapping target"
  | .lsb =>
      match matched.msbBits with
      | none => invalidResidue "lsb requires an msb matching operator"
      | some msbBits => do
          let writer ← writeLengthPrefix writer field branch.parse.length
          field.writeRangeTo writer msbBits (field.bitLen - msbBits)

/-- The options of the wanted number, in wire order, until one has the length and matches. -/
def searchCoapOption (number : Nat) (bitLen : Option Nat) (branch : Branch) :
    Nat → List CoapOption → Result (Option (FieldValue × MatchResult))
  | _, [] => .ok none
  | ordinal, option :: options =>
      if option.number.toNat ≠ number then searchCoapOption number bitLen branch (ordinal + 1) options
      else do
        let field ← FieldValue.fromBytes option.value (option.value.length * 8)
        if bitLen.any (fun expected => field.bitLen ≠ expected) then
          searchCoapOption number bitLen branch (ordinal + 1) options
        else do
          let matched ← matchesBranch field branch
          match matched with
          | some matched => .ok (some (field, { matched with coapOptionOrdinal := some ordinal }))
          | none => searchCoapOption number bitLen branch (ordinal + 1) options

def extractMatchingCoapOption (packet : List UInt8) (parse : ParseStep) (bitLen : Option Nat)
    (scope : PacketScope) (branch : Branch) : Result (Option (FieldValue × MatchResult)) :=
  if scope = .embedded then
    packetError "compression" "CoAP option is outside supported embedded scope"
  else
    match parse.field with
    | .coapOption number => do
        let coap ← outerCoap packet
        searchCoapOption number bitLen branch 0 coap.options
    | _ => .ok none

/- One branch. -/

def CompressionState.isOuterError (state : CompressionState) : Bool :=
  match state.fields.firstByFieldScope (.icmpv6 (.known .icmpv6Type)) .outer with
  | some value => value.toU64.toOption.any valueIsIcmpError
  | none => false

def CompressionState.outerNextHeaderIsIcmp (state : CompressionState) : Bool :=
  match state.fields.firstByFieldScope (.ipv6 (.known .ipv6NextHeader)) .outer with
  | some value => value.toU64.toOption = some 58
  | none => false

def FieldRef.isTransport : FieldRef → Bool
  | .udp _ => true
  | .coap _ => true
  | .coapOption _ => true
  | _ => false

def FieldRef.isCoapOption : FieldRef → Bool
  | .coapOption _ => true
  | _ => false

def scopeForField (state : CompressionState) (field : FieldRef) : Result PacketScope :=
  if state.scope = .embedded then .ok .embedded
  else if state.isOuterError then
    if field = .ipv6 (.known .ipv6Version) ∧
        state.fields.containsFieldScope (.ipv6 (.known .ipv6Version)) .outer then .ok .embedded
    else if field.isTransport ∧ state.outerNextHeaderIsIcmp then
      packetError "compression" "embedded transport field appears before embedded IPv6 scope"
    else .ok .outer
  else .ok .outer

def fieldPositionApplies (position : Nat) (scope : PacketScope) (field : FieldRef)
    (state : CompressionState) : Bool :=
  if position = 0 then true
  else if field.isCoapOption then true
  else
    match scope with
    | .outer => position = 1
    | .embedded =>
        position = 2 && state.fields.containsFieldScope (.ipv6 (.known .ipv6Version)) .outer

def resolveFieldBitLen (length : FieldLength) (state : CompressionState) : Result (Option Nat) :=
  match length with
  | .variableBytes => .ok none
  | .variableBits => .ok none
  | length => do
      let bitLen ← state.lengths.resolve length state.fields
      .ok (some bitLen)

/-- Extraction and matching of one entry; `none` when the entry does not match. -/
def matchEntry (packet : List UInt8) (direction : Direction) (branch : Branch)
    (bitLen : Option Nat) (scope : PacketScope) (state : CompressionState) :
    Result (Option (FieldValue × MatchResult)) :=
  if branch.parse.field.isCoapOption ∧ branch.parse.fieldPosition = 0 then
    extractMatchingCoapOption packet branch.parse bitLen scope branch
  else do
    let coapPresent := state.fields.containsFieldScope (.coap (.known .coapVersion)) scope
    let field ← extractField packet direction branch.parse bitLen scope coapPresent state
    if bitLen.any (fun expected => field.bitLen ≠ expected) then .ok none
    else do
      let matched ← matchesBranch field branch
      .ok (matched.map (fun matched => (field, matched)))

/-- The ordinal of a matched CoAP option; other fields have none. -/
def optionOrdinal (packet : List UInt8) (parse : ParseStep) (scope : PacketScope)
    (matched : MatchResult) : Result (Option Nat) :=
  if parse.field.isCoapOption ∧ matched.coapOptionOrdinal = none then do
    let ordinal ← extractCoapOptionOrdinal packet parse scope
    .ok (some ordinal)
  else .ok matched.coapOptionOrdinal

/-- The token length that an entry makes known. -/
def updateLengths (lengths : LengthResolver) (field : FieldRef) (value : FieldValue) :
    Result LengthResolver :=
  if field = .coap (.known .coapTkl) then do
    let tokenLength ← value.toU64
    .ok (lengths.setTokenLength tokenLength)
  else .ok lengths

/-- `traverse_branch` up to its recursive call: the state at the next node, if the branch
    applies and matches. -/
def traverseBranch (packet : List UInt8) (direction : Direction) (branch : Branch)
    (state : CompressionState) : Result (Option CompressionState) :=
  if branch.parse.field = .syntheticCoapMarker then .ok (some state)
  else do
    let scope ← scopeForField state branch.parse.field
    if ¬ fieldPositionApplies branch.parse.fieldPosition scope branch.parse.field state then .ok none
    else do
      let bitLen ← resolveFieldBitLen branch.parse.length state
      let entry ← matchEntry packet direction branch bitLen scope state
      match entry with
      | none => .ok none
      | some (field, matched) => do
          let ordinal ← optionOrdinal packet branch.parse scope matched
          let residue ← writeResidue state.residue field branch matched
          let lengths ← updateLengths state.lengths branch.parse.field field
          let key : FieldKey :=
            ⟨branch.parse.field, branch.parse.fieldPosition, branch.parse.entryIndex, scope⟩
          .ok (some ⟨residue, state.fields.insert key field, lengths,
            state.coapOptionOrdinals ++ ordinal.toList, scope⟩)

/- Leaves. -/

def writeBytes (writer : BitWriter) : List UInt8 → Result BitWriter
  | [] => .ok writer
  | byte :: bytes => do
      let writer ← writer.writeBits byte.toNat 8
      writeBytes writer bytes

def appendBits (output input : BitWriter) : Result BitWriter := do
  let (output, _) ← BitReader.copyTo output input.bitLen (BitReader.new input.toVec)
  .ok output

/-- The rule ID followed by the original packet bytes. -/
def noCompressionCandidate (ruleOrder : Nat) (ruleId : RuleId) (packet : List UInt8) :
    Result Candidate := do
  let writer ← BitWriter.new.writeBits ruleId.value ruleId.bitLen
  let writer ← writeBytes writer packet
  .ok ⟨ruleOrder, ⟨writer.toVec, writer.bitLen, ruleId⟩⟩

/-- The rule ID, the residue and the carried suffix. -/
def compressedCandidate (ruleOrder : Nat) (ruleId : RuleId) (residue : BitWriter)
    (suffix : List UInt8) : Result Candidate := do
  let writer ← BitWriter.new.writeBits ruleId.value ruleId.bitLen
  let writer ← appendBits writer residue
  let writer ← writeBytes writer suffix
  .ok ⟨ruleOrder, ⟨writer.toVec, writer.bitLen, ruleId⟩⟩

/-- How many leading options the rule covered, when they are exactly the leading ones. -/
def coapOptionBoundary (state : CompressionState) : Option Nat :=
  if state.coapOptionOrdinals = List.range state.coapOptionOrdinals.length then
    some state.coapOptionOrdinals.length
  else none

/-- The length of the CoAP header, token and leading options. -/
def coapPrefixLength (udp : UdpDatagram) (boundary : Nat) : Result Nat := do
  let coap ← CoapMessage.parse udp.payload
  let first ← index udp.payload 0
  let leading ← CoapMessage.fromParts coap.version ((first >>> 4) &&& 0x03) coap.code
    coap.messageId coap.token (coap.options.take boundary) []
  let bytes ← leading.toVec
  .ok bytes.length

/-- Where the part of the packet that the rule covered ends. -/
def coveredLength (ipv6 : Ipv6Packet) (state : CompressionState) : Result (Option Nat) :=
  if ipv6.nextHeader = 17 ∧ state.fields.containsField (.udp (.known .udpDevPort)) then
    if state.fields.any (fun entry => match entry.1.field with
        | .coap _ => true
        | .coapOption _ => true
        | _ => false) then do
      let udp ← UdpDatagram.parse ipv6.payload
      let _ ← CoapMessage.parse udp.payload
      match coapOptionBoundary state with
      | none => .ok none
      | some boundary => do
          let length ← coapPrefixLength udp boundary
          .ok (some (48 + length))
    else .ok (some 48)
  else if ipv6.nextHeader = 58 ∧ state.fields.containsField (.icmpv6 (.known .icmpv6Type)) then do
    let icmp ← Icmpv6Message.parse ipv6.payload
    .ok (some (40 + icmp.payloadOffset))
  else .ok (some 40)

def carryThroughSuffix (packet : List UInt8) (state : CompressionState) :
    Result (Option (List UInt8)) :=
  if state.fields.hasExplicitPayload then .ok none
  else do
    let ipv6 ← Ipv6Packet.parse packet
    let covered ← coveredLength ipv6 state
    match covered with
    | none => .ok none
    | some offset =>
        if beyond : offset > packet.length then
          packetError "compression" "unread packet suffix starts beyond packet length"
        else .ok (some (tailIn packet offset (by omega)))

/-- Nothing when the rule rebuilds the packet exactly; a rebuild that fails counts as one
    that is incomplete. -/
def leafSuffix (packet : List UInt8) (direction : Direction) (state : CompressionState) :
    Result (Option (List UInt8)) :=
  match reconstructPacket direction state.fields with
  | .error (.panic site) => .error (.panic site)
  | .error (.fail _) => carryThroughSuffix packet state
  | .ok bytes => if bytes = packet then .ok (some []) else carryThroughSuffix packet state

/-- `record_branch_error` -/
def TraversalContext.recordBranchError (traversal : TraversalContext) (error : SchcError) : TraversalContext :=
  if error = .noMatchingRule then traversal
  else { traversal with branchErrors := traversal.branchErrors ++ [error] }

/-- The candidate of a rule that ends at a node, if the rule can carry the packet. -/
def leafCandidate (packet : List UInt8) (direction : Direction) (rule : Option Rule)
    (ruleOrder : Nat) (ruleId : RuleId) (state : CompressionState) : Result (Option Candidate) :=
  match (rule.map (fun rule => rule.nature)).getD .compression with
  | .compression | .management =>
      if rule.any (fun rule => rule.fields.isEmpty) then do
        let candidate ← noCompressionCandidate ruleOrder ruleId packet
        .ok (some candidate)
      else do
        let suffix ← leafSuffix packet direction state
        match suffix with
        | none => .ok none
        | some suffix => do
            let candidate ← compressedCandidate ruleOrder ruleId state.residue suffix
            .ok (some candidate)
  | .noCompression => do
      let candidate ← noCompressionCandidate ruleOrder ruleId packet
      .ok (some candidate)
  | .fragmentation => .ok none

/-- The natures that a leaf reports as unsupported. -/
def leafNatureErrors (rule : Option Rule) : List RuleNature :=
  match (rule.map (fun rule => rule.nature)).getD .compression with
  | .fragmentation => [.fragmentation]
  | _ => []

namespace Compressor

def visitLeaf (c : Compressor) (packet : List UInt8) (direction : Direction) (node : Node)
    (state : CompressionState) (traversal : TraversalContext) : Result TraversalContext :=
  match node.ruleId, node.ruleOrder with
  | some ruleId, some ruleOrder => do
      let rule := c.context.rules.rules[ruleOrder]?
      let candidate ← leafCandidate packet direction rule ruleOrder ruleId state
      .ok { traversal with
        candidates := traversal.candidates ++ candidate.toList
        natureErrors := traversal.natureErrors ++ leafNatureErrors rule }
  | _, _ => .ok traversal

/-- What a failed call leaves behind: an error is recorded, a panic ends the run. -/
def absorb : TraversalContext × Result Unit → TraversalContext × Result Unit
  | (traversal, .error (.fail error)) => (traversal.recordBranchError error, .ok ())
  | (traversal, .error (.panic site)) => (traversal, .error (.panic site))
  | (traversal, .ok ()) => (traversal, .ok ())

/-- `for branch in node.branches`, with `visit` the recursive call. -/
def traverseBranches (packet : List UInt8) (direction : Direction)
    (visit : Nat → CompressionState → TraversalContext → TraversalContext × Result Unit)
    (state : CompressionState) : List Branch → TraversalContext → TraversalContext × Result Unit
  | [], traversal => (traversal, .ok ())
  | branch :: branches, traversal =>
      let outcome :=
        if ¬ branch.direction.accepts direction then visit branch.next state traversal
        else
          match traverseBranch packet direction branch state with
          | .error halt => (traversal, .error halt)
          | .ok none => (traversal, .ok ())
          | .ok (some next) => visit branch.next next traversal
      match absorb outcome with
      | (traversal, .error halt) => (traversal, .error halt)
      | (traversal, .ok ()) =>
          traverseBranches packet direction visit state branches traversal

/-- `steps` bounds the nesting of calls; every branch leads to a later node. -/
def traverse (c : Compressor) (packet : List UInt8) (direction : Direction) :
    Nat → Nat → CompressionState → TraversalContext → TraversalContext × Result Unit
  | 0, _, _, traversal => (traversal, panicAt .stackOverflow)
  | steps + 1, nodeIndex, state, traversal =>
      match c.tree.nodes[nodeIndex]? with
      | none => (traversal, panicAt .index)
      | some node =>
          match c.visitLeaf packet direction node state traversal with
          | .error halt => (traversal, .error halt)
          | .ok traversal =>
              traverseBranches packet direction (c.traverse packet direction steps) state
                node.branches traversal

/-- `for (rule_order, rule) in rules`, from order `ruleOrder` on. -/
def emptyNoCompressionFrom (packet : List UInt8) :
    Nat → List Rule → Result (Option Candidate)
  | _, [] => .ok none
  | ruleOrder, rule :: rules =>
      if rule.nature = .noCompression ∧ rule.fields.isEmpty then do
        let candidate ← noCompressionCandidate ruleOrder rule.id packet
        .ok (some candidate)
      else emptyNoCompressionFrom packet (ruleOrder + 1) rules

def emptyNoCompressionCandidate (c : Compressor) (packet : List UInt8) :
    Result (Option Candidate) :=
  emptyNoCompressionFrom packet 0 c.context.rules.rules

/-- The candidate with the fewest bits, the earlier rule among equals. -/
def bestCandidate (candidates : List Candidate) : Option Candidate :=
  candidates.argmin (fun candidate => toLex (candidate.datagram.bitLen, candidate.ruleOrder))

/-- The verdict on a finished traversal. -/
def selectDatagram (traversal : TraversalContext) : Result CompressedDatagram :=
  match bestCandidate traversal.candidates with
  | some candidate => .ok candidate.datagram
  | none =>
      match traversal.natureErrors with
      | nature :: _ => fail (.unsupportedRuleNature nature.asStr)
      | [] =>
          match traversal.branchErrors with
          | error :: _ => fail error
          | [] => fail .noMatchingRule

def compress (c : Compressor) (direction : Direction) (packet : List UInt8) :
    Result CompressedDatagram :=
  match Ipv6Packet.parse packet with
  | .error (.panic site) => .error (.panic site)
  | .error (.fail error) => do
      let candidate ← c.emptyNoCompressionCandidate packet
      match candidate with
      | some candidate => .ok candidate.datagram
      | none => fail error
  | .ok _ =>
      match c.traverse packet direction (c.tree.nodes.length + 1) 0 .initial ⟨[], [], []⟩ with
      | (_, .error halt) => .error halt
      | (traversal, .ok ()) => selectDatagram traversal

end Compressor
end SchcCore
