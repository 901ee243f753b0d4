import SchcCore.Rule.Model
import SchcCore.Lib.PrefixCode
import SchcCore.Lib.BigEndian

/- JSON and CBOR loading for typed SCHC rules, from the document that `serde_json` or
   `ciborium` decoded. -/
namespace SchcCore
open Outcome

structure RuleContext where
  rules : RuleSet

inductive JsonLengthUnit where
  | bytes | bits
  deriving DecidableEq, Repr

inductive JsonLength where
  | fixed (bits : Nat)
  | tokenLength
  | fromPrevious (entryIndex : Nat) (unit : JsonLengthUnit)
  | ofVariable (unit : JsonLengthUnit)
  | functionSid (sid : Nat)
  deriving DecidableEq, Repr

/-- `serde_json::Value`; a number keeps its literal. -/
inductive JsonValue where
  | null
  | bool (value : Bool)
  | number (literal : String)
  | string (value : String)
  | array (values : List JsonValue)
  | object (entries : List (String × JsonValue))

structure JsonField where
  field : String
  lengthBits : Option Nat
  length : Option JsonLength
  fieldPosition : Nat
  direction : String
  target : JsonValue
  mo : String
  cda : String

structure JsonRule where
  ruleId : UInt64
  ruleIdLength : Nat
  nature : Option String
  fields : List JsonField

structure RuleFile where
  rules : List JsonRule

/-- `ciborium::value::Value`; a float keeps its bits. -/
inductive CborValue where
  | integer (value : Int)
  | bytes (value : List UInt8)
  | float (bits : UInt64)
  | text (value : String)
  | bool (value : Bool)
  | null
  | tag (number : Nat) (content : CborValue)
  | array (values : List CborValue)
  | map (entries : List (CborValue × CborValue))

def invalidField {α : Type} (ruleIndex entryIndex : Nat) (reason : String) : Result α :=
  fail (.invalidRuleField ruleIndex entryIndex reason)

def invalidRule {α : Type} (ruleIndex : Nat) (reason : String) : Result α :=
  fail (.invalidRule ruleIndex reason)

@[simp] theorem invalidField_ne_ok {α : Type} (ruleIndex entryIndex : Nat) (reason : String)
    (a : α) : invalidField ruleIndex entryIndex reason ≠ .ok a := fail_ne_ok _ a

@[simp] theorem invalidRule_ne_ok {α : Type} (ruleIndex : Nat) (reason : String) (a : α) :
    invalidRule ruleIndex reason ≠ .ok a := fail_ne_ok _ a

/-- The reason a helper gives, turned into the caller's error. -/
def orElse {α : Type} (outcome : Except String α) (report : String → Result α) : Result α :=
  match outcome with
  | .ok value => .ok value
  | .error reason => report reason

/- Rule identifiers. -/

/-- The colliding pair ordered as `(prefix, container)`. -/
def ruleIdCollision (earlier later : RuleId) : Option (RuleId × RuleId) :=
  if earlier.bitLen = later.bitLen then
    if earlier.value = later.value then some (earlier, later) else none
  else if earlier.bitLen < later.bitLen then
    if later.value >>> (later.bitLen - earlier.bitLen) = earlier.value then some (earlier, later)
    else none
  else
    if earlier.value >>> (earlier.bitLen - later.bitLen) = later.value then some (later, earlier)
    else none

/-- The inner loop: `later` against the rules before it. -/
def checkCollisions (later : Rule) : List Rule → Result Unit
  | [] => .ok ()
  | earlier :: rest =>
      match ruleIdCollision earlier.id later.id with
      | some (first, second) =>
          fail (.ambiguousRuleIdPrefix first.value first.bitLen second.value second.bitLen)
      | none => checkCollisions later rest

/-- The outer loop; `before` is `rules[..later_index]`. -/
def checkPrefixes (before : List Rule) : List Rule → Result Unit
  | [] => .ok ()
  | later :: rest => do
      checkCollisions later before
      checkPrefixes (before ++ [later]) rest

def validateRuleIdPrefixes (rules : List Rule) : Result Unit := checkPrefixes [] rules

def validateRuleId (ruleIndex ruleId ruleIdLength : Nat) : Result Unit :=
  if ruleIdLength = 0 ∨ ruleIdLength > 64 then
    invalidRule ruleIndex s!"rule_id_length {ruleIdLength} is invalid"
  else if ruleIdLength < 64 ∧ ruleId ≥ 1 <<< ruleIdLength then
    invalidRule ruleIndex s!"rule_id {ruleId} does not fit in {ruleIdLength} bits"
  else .ok ()

/- Field rules. -/

def isComputeSupported : FieldRef → Bool
  | .ipv6 (.known .ipv6PayloadLength) => true
  | .udp (.known .udpLength) => true
  | .udp (.known .udpChecksum) => true
  | .icmpv6 (.known .icmpv6Checksum) => true
  | _ => false

def TargetValue.isBytes : TargetValue → Bool
  | .bytes _ => true
  | _ => false

def TargetValue.isFilledMapping : TargetValue → Bool
  | .mapping values => !values.isEmpty
  | _ => false

def MatchingOperator.isMsb : MatchingOperator → Bool
  | .msb _ => true
  | _ => false

def payloadLengthIsSupported (field : FieldRule) : Bool :=
  field.field ≠ .payload ||
    match field.length with
    | .fixedBits bits => bits % 8 = 0
    | .variableBytes => true
    | .variableBits => field.action = .lsb
    | .fromPreviousField _ .bytes => true
    | _ => false

def validateFieldRule (ruleIndex : Nat) (field : FieldRule) : Result Unit :=
  let isMarker := field.field = .syntheticCoapMarker
  if (field.matching = .equal ∨ field.matching.isMsb) ∧ ¬ field.target.isBytes then
    invalidField ruleIndex field.entryIndex "equal and msb matching require a byte target"
  else if field.matching = .matchMapping ∧ ¬ field.target.isFilledMapping then
    invalidField ruleIndex field.entryIndex "match-mapping requires a non-empty mapping target"
  else if field.action = .mappingSent ∧ ¬ field.target.isFilledMapping then
    invalidField ruleIndex field.entryIndex "mapping-sent requires a non-empty mapping target"
  else if (field.action = .notSent ∨ field.action = .lsb) ∧ ¬ isMarker ∧ ¬ field.target.isBytes then
    invalidField ruleIndex field.entryIndex "not-sent and lsb require a byte target"
  else if field.action = .lsb ∧ ¬ field.matching.isMsb then
    invalidField ruleIndex field.entryIndex "lsb requires an msb matching operator"
  else if field.action = .compute ∧ ¬ isComputeSupported field.field then
    invalidField ruleIndex field.entryIndex
      ("compute is not supported for field " ++ field.field.debug ++
        "; only length and checksum fields can be computed")
  else if field.action = .appIid ∧ field.field ≠ .ipv6 (.known .ipv6AppIid) then
    invalidField ruleIndex field.entryIndex "cda-appiid is only valid for fid-ipv6-appiid"
  else if field.action = .deviceIid ∧ field.field ≠ .ipv6 (.known .ipv6DevIid) then
    invalidField ruleIndex field.entryIndex "cda-deviid is only valid for fid-ipv6-deviid"
  else if isMarker ∧ (field.action ≠ .notSent ∨ field.matching ≠ .ignore) then
    invalidField ruleIndex field.entryIndex "CoAP payload marker must use not-sent with ignore"
  else if ¬ payloadLengthIsSupported field then
    invalidField ruleIndex field.entryIndex "fid-payload length must be expressed in whole bytes"
  else .ok ()

def fieldRef (identifier : String) (sid : Nat) : FieldRef :=
  match KnownName.all.find? (·.text = identifier) with
  | some name =>
      match name with
      | .ipv6Version | .ipv6TrafficClass | .ipv6FlowLabel | .ipv6PayloadLength | .ipv6NextHeader
      | .ipv6HopLimit | .ipv6DevPrefix | .ipv6DevIid | .ipv6AppPrefix | .ipv6AppIid =>
          .ipv6 (.known name)
      | .udpDevPort | .udpAppPort | .udpLength | .udpChecksum | .udpPayload => .udp (.known name)
      | .coapVersion | .coapType | .coapTkl | .coapCode | .coapMid | .coapToken | .coapPayload =>
          .coap (.known name)
      | .icmpv6Type | .icmpv6Code | .icmpv6Checksum | .icmpv6Identifier | .icmpv6Sequence
      | .icmpv6Mtu | .icmpv6Pointer | .icmpv6Payload => .icmpv6 (.known name)
  | none =>
      if identifier = "fid-coap-payload-marker" then .syntheticCoapMarker
      else if identifier = "fid-coap-option-uri-host" then .coapOption 3
      else if identifier = "fid-coap-option-uri-path" then .coapOption 11
      else if identifier = "fid-unused" then .unused
      else if identifier = "fid-payload" then .payload
      else .unknownSid sid

def resolveSupportedFieldRef (ruleIndex entryIndex : Nat) (identifier : String) (fieldSid : Nat)
    (resolved : FieldRef) : Result FieldRef :=
  match resolved with
  | .unknownSid _ =>
      invalidField ruleIndex entryIndex
        (s!"unsupported field identifier {identifier} (SID {fieldSid}) is not mapped to a " ++
          "compression-core field family")
  | resolved => .ok resolved

def validateFieldIdentifier (registry : SidRegistry) (ruleIndex entryIndex : Nat)
    (kind identifier : String) : Result Nat :=
  match registry.sid identifier with
  | .ok sid => .ok sid
  | .error _ =>
      invalidField ruleIndex entryIndex
        s!"{kind} identifier {identifier} is not present in SID registry"

/-- `str::parse` at an unsigned 64-bit type: digits after an optional plus sign. -/
def parseUnsigned (text : List Char) : Option Nat :=
  let digits := match text with
    | '+' :: rest => rest
    | _ => text
  if digits = [] ∨ ¬ digits.all Char.isDigit then none
  else
    let value := digits.foldl (fun v c => v * 10 + (c.toNat - 48)) 0
    if value < 2 ^ 64 then some value else none

/- The JSON document. -/

def parseCoapOptionField (value : String) : Option Nat := do
  let inner ← value.toList.dropPrefix? "coap-option(".toList
  let inner ← inner.dropSuffix? [')']
  parseUnsigned inner

def jsonLengthUnit : JsonLengthUnit → LengthUnit
  | .bytes => .bytes
  | .bits => .bits

def jsonFieldLength (ruleIndex entryIndex : Nat) (field : JsonField) : Result FieldLength :=
  match field.length, field.lengthBits with
  | some (.fixed bits), none => .ok (.fixedBits bits)
  | some .tokenLength, none => .ok .tokenLength
  | some (.fromPrevious entry unit), none => .ok (.fromPreviousField entry (jsonLengthUnit unit))
  | some (.ofVariable .bytes), none => .ok .variableBytes
  | some (.ofVariable .bits), none => .ok .variableBits
  | some (.functionSid sid), none => .ok (.functionSid sid)
  | none, some bits => .ok (.fixedBits bits)
  | some _, some _ =>
      invalidField ruleIndex entryIndex "field must use either length or length_bits, not both"
  | none, none => invalidField ruleIndex entryIndex "field length is missing"

def directionSelector (registry : SidRegistry) (ruleIndex entryIndex : Nat) (value : String) :
    Result DirectionSelector := do
  if value = "bi" then
    let _ ← validateFieldIdentifier registry ruleIndex entryIndex "direction" "di-bidirectional"
    .ok .bidirectional
  else if value = "up" then
    let _ ← validateFieldIdentifier registry ruleIndex entryIndex "direction" "di-up"
    .ok .up
  else if value = "down" then
    let _ ← validateFieldIdentifier registry ruleIndex entryIndex "direction" "di-down"
    .ok .down
  else invalidField ruleIndex entryIndex s!"unknown direction {value}"

def matchingOperator (registry : SidRegistry) (ruleIndex entryIndex : Nat) (value : String) :
    Result MatchingOperator := do
  if value = "equal" then
    let _ ← validateFieldIdentifier registry ruleIndex entryIndex "mo" "mo-equal"
    .ok .equal
  else if value = "ignore" then
    let _ ← validateFieldIdentifier registry ruleIndex entryIndex "mo" "mo-ignore"
    .ok .ignore
  else if value = "match-mapping" then
    let _ ← validateFieldIdentifier registry ruleIndex entryIndex "mo" "mo-match-mapping"
    .ok .matchMapping
  else
    match value.toList.dropPrefix? "msb(".toList, value.toList.getLast? with
    | some argument, some ')' => do
        let _ ← validateFieldIdentifier registry ruleIndex entryIndex "mo" "mo-msb"
        match parseUnsigned argument.dropLast with
        | some bits => .ok (.msb bits)
        | none => invalidField ruleIndex entryIndex s!"invalid msb argument in {value}"
    | _, _ => invalidField ruleIndex entryIndex s!"unknown matching operator {value}"

def cda (registry : SidRegistry) (ruleIndex entryIndex : Nat) (value : String) : Result Cda := do
  if value = "not-sent" then
    let _ ← validateFieldIdentifier registry ruleIndex entryIndex "cda" "cda-not-sent"
    .ok .notSent
  else if value = "value-sent" then
    let _ ← validateFieldIdentifier registry ruleIndex entryIndex "cda" "cda-value-sent"
    .ok .valueSent
  else if value = "mapping-sent" then
    let _ ← validateFieldIdentifier registry ruleIndex entryIndex "cda" "cda-mapping-sent"
    .ok .mappingSent
  else if value = "lsb" then
    let _ ← validateFieldIdentifier registry ruleIndex entryIndex "cda" "cda-lsb"
    .ok .lsb
  else if value = "compute" then
    let _ ← validateFieldIdentifier registry ruleIndex entryIndex "cda" "cda-compute"
    .ok .compute
  else if value = "deviid" then
    let _ ← validateFieldIdentifier registry ruleIndex entryIndex "cda" "cda-deviid"
    .ok .deviceIid
  else if value = "appiid" then
    let _ ← validateFieldIdentifier registry ruleIndex entryIndex "cda" "cda-appiid"
    .ok .appIid
  else invalidField ruleIndex entryIndex s!"unknown cda {value}"

def hexDigit (byte : UInt8) : Option UInt8 :=
  if 48 ≤ byte ∧ byte ≤ 57 then some (byte - 48)
  else if 97 ≤ byte ∧ byte ≤ 102 then some (byte - 97 + 10)
  else if 65 ≤ byte ∧ byte ≤ 70 then some (byte - 65 + 10)
  else none

def hexPairs : List UInt8 → Option (List UInt8)
  | [] => some []
  | [_] => none
  | high :: low :: rest => do
      let high ← hexDigit high
      let low ← hexDigit low
      let bytes ← hexPairs rest
      some (((high <<< 4) ||| low) :: bytes)

def decodeHex (ruleIndex entryIndex : Nat) (value : String) : Result (List UInt8) :=
  let digits := value.toUTF8.data.toList
  if digits.length % 2 ≠ 0 then
    invalidField ruleIndex entryIndex s!"hex target {value} has an odd number of digits"
  else
    match hexPairs digits with
    | some bytes => .ok bytes
    | none => invalidField ruleIndex entryIndex s!"hex target {value} contains an invalid digit"

def mappingEntries (ruleIndex entryIndex : Nat) : List JsonValue → Result (List (List UInt8))
  | [] => .ok []
  | .string hex :: rest => do
      let bytes ← decodeHex ruleIndex entryIndex hex
      let mapping ← mappingEntries ruleIndex entryIndex rest
      .ok (bytes :: mapping)
  | _ :: _ => invalidField ruleIndex entryIndex "target mapping entries must be hex strings"

def targetValue (ruleIndex entryIndex : Nat) : JsonValue → Result TargetValue
  | .null => .ok .none
  | .string hex => do
      let bytes ← decodeHex ruleIndex entryIndex hex
      .ok (.bytes bytes)
  | .array values => do
      let mapping ← mappingEntries ruleIndex entryIndex values
      .ok (.mapping mapping)
  | _ =>
      invalidField ruleIndex entryIndex
        "target must be null, a hex string, or an array of hex strings"

def jsonFieldRef (registry : SidRegistry) (ruleIndex entryIndex : Nat) (identifier : String) :
    Result FieldRef :=
  match parseCoapOptionField identifier with
  | some number => .ok (.coapOption number)
  | none => do
      let fieldSid ← validateFieldIdentifier registry ruleIndex entryIndex "field" identifier
      resolveSupportedFieldRef ruleIndex entryIndex identifier fieldSid
        (fieldRef identifier fieldSid)

def loadField (registry : SidRegistry) (ruleIndex entryIndex : Nat) (json : JsonField) :
    Result FieldRule := do
  let field ← jsonFieldRef registry ruleIndex entryIndex json.field
  let length ← jsonFieldLength ruleIndex entryIndex json
  let direction ← directionSelector registry ruleIndex entryIndex json.direction
  let target ← targetValue ruleIndex entryIndex json.target
  let matching ← matchingOperator registry ruleIndex entryIndex json.mo
  let action ← cda registry ruleIndex entryIndex json.cda
  let rule : FieldRule :=
    ⟨field, length, json.fieldPosition, direction, target, matching, action, entryIndex⟩
  validateFieldRule ruleIndex rule
  .ok rule

def parseNature (ruleIndex : Nat) : Option String → Result RuleNature
  | none => .ok .compression
  | some value =>
      match RuleNature.parseIdentifier value with
      | some nature => .ok nature
      | none => invalidRule ruleIndex s!"unknown rule nature {value}"

def loadJsonRule (registry : SidRegistry) (ruleIndex : Nat) (json : JsonRule) : Result Rule := do
  validateRuleId ruleIndex json.ruleId.toNat json.ruleIdLength
  let fields ← mapIndexed (loadField registry ruleIndex) 0 json.fields
  let nature ← parseNature ruleIndex json.nature
  .ok ⟨⟨json.ruleId.toNat, json.ruleIdLength⟩, fields, nature⟩

/-- `from_json_str` after `serde_json` decoded the document. -/
def RuleContext.fromJson (file : RuleFile) (registry : SidRegistry) : Result RuleContext := do
  let rules ← mapIndexed (loadJsonRule registry) 0 file.rules
  validateRuleIdPrefixes rules
  .ok ⟨⟨rules, registry⟩⟩

/- The CBOR document. -/

def integerKey : CborValue → Option Int
  | .integer value => some value
  | _ => none

def mapValue (value : CborValue) (key : Int) : Option CborValue :=
  match value with
  | .map entries =>
      entries.findSome? (fun entry => if integerKey entry.1 = some key then some entry.2 else none)
  | _ => none

def requiredMapValue (value : CborValue) (key : Int) : Except String CborValue :=
  match mapValue value key with
  | some value => .ok value
  | none => .error s!"missing map key {key}"

/-- `usize::try_from` and `u64::try_from`, both 64 bits wide. -/
def valueToU64 : CborValue → Except String Nat
  | .integer value =>
      if 0 ≤ value ∧ value < 2 ^ 64 then .ok value.toNat
      else .error "out of range integral type conversion attempted"
  | _ => .error "value is not an integer"

def requiredArray (value : CborValue) (key : Int) : Except String (List CborValue) := do
  match ← requiredMapValue value key with
  | .array values => .ok values
  | _ => .error "value is not an array"

def requiredU64 (value : CborValue) (key : Int) : Except String Nat := do
  valueToU64 (← requiredMapValue value key)

def requiredFieldValue (value : CborValue) (key : Int) (ruleIndex entryIndex : Nat) :
    Result CborValue :=
  orElse (requiredMapValue value key) fun reason =>
    invalidField ruleIndex entryIndex s!"missing or invalid key {key}: {reason}"

/-- `required_field_usize` and `required_field_u64`, which differ in the type they name. -/
def requiredFieldInteger (type : String) (value : CborValue) (key : Int)
    (ruleIndex entryIndex : Nat) : Result Nat := do
  let found ← requiredFieldValue value key ruleIndex entryIndex
  orElse (valueToU64 found) fun reason =>
    invalidField ruleIndex entryIndex s!"key {key} must be a {type} integer: {reason}"

def requiredFieldUsize := requiredFieldInteger "usize"

def requiredFieldU64 := requiredFieldInteger "u64"

def sidIdentifier (registry : SidRegistry) (ruleIndex entryIndex : Nat) (kind : String)
    (sid : Nat) : Result String :=
  match registry.identifier sid with
  | .ok identifier => .ok identifier
  | .error _ => invalidField ruleIndex entryIndex s!"unknown {kind} SID {sid}"

def bytesToUsize (bytes : List UInt8) : Option Nat :=
  if bytes.length > 8 then none else some (BigEndian.value bytes)

def integerToMinimalBytes (value : Int) : Option (List UInt8) :=
  if 0 ≤ value ∧ value < 2 ^ 64 then
    if value = 0 then some [0]
    else some ((BigEndian.toBytes 8 value.toNat).dropWhile (· = 0))
  else none

def valueToBytes (ruleIndex entryIndex : Nat) : CborValue → Result (List UInt8)
  | .bytes bytes => .ok bytes
  | .integer integer =>
      match integerToMinimalBytes integer with
      | some bytes => .ok bytes
      | none =>
          invalidField ruleIndex entryIndex "negative target integers are not supported"
  | _ =>
      invalidField ruleIndex entryIndex "target values must be byte strings or integers"

/-- The entries of a value list in document order, with their indexes. -/
def parseTargetEntries (ruleIndex entryIndex : Nat) (parsed : List (Nat × CborValue)) :
    List CborValue → Result (List (Nat × CborValue))
  | [] => .ok parsed
  | entry :: rest => do
      let index ← requiredFieldUsize entry 1 ruleIndex entryIndex
      if parsed.any (·.1 = index) then
        invalidField ruleIndex entryIndex s!"duplicate target index {index}"
      else
        let value ← requiredFieldValue entry 2 ruleIndex entryIndex
        parseTargetEntries ruleIndex entryIndex (parsed ++ [(index, value)]) rest

def checkConsecutive (ruleIndex entryIndex : Nat) : Nat → List (Nat × CborValue) → Result Unit
  | _, [] => .ok ()
  | expected, (actual, _) :: rest =>
      if actual ≠ expected then
        invalidField ruleIndex entryIndex
          (s!"value-list indexes must be consecutive from 0; expected {expected}, " ++
            s!"found {actual}")
      else checkConsecutive ruleIndex entryIndex (expected + 1) rest

def cborTargetEntries (ruleIndex entryIndex : Nat) : CborValue → Result (List (Nat × CborValue))
  | .array entries => do
      let parsed ← parseTargetEntries ruleIndex entryIndex [] entries
      let sorted := parsed.insertionSort (fun a b => a.1 ≤ b.1)
      checkConsecutive ruleIndex entryIndex 0 sorted
      .ok sorted
  | _ => invalidField ruleIndex entryIndex "target-value list must be an array"

def cborTargetValue (value : Option CborValue) (matching : MatchingOperator) (action : Cda)
    (ruleIndex entryIndex : Nat) : Result TargetValue :=
  match value with
  | none => .ok .none
  | some .null => .ok .none
  | some value => do
      let entries ← cborTargetEntries ruleIndex entryIndex value
      let values ← entries.mapM (fun entry => valueToBytes ruleIndex entryIndex entry.2)
      match values with
      | [] => .ok .none
      | first :: rest =>
          if matching = .matchMapping ∨ action = .mappingSent then .ok (.mapping (first :: rest))
          else if rest = [] then .ok (.bytes first)
          else .ok (.mapping (first :: rest))

def cborCda (registry : SidRegistry) (ruleIndex entryIndex sid : Nat) : Result Cda := do
  let identifier ← sidIdentifier registry ruleIndex entryIndex "cda" sid
  if identifier = "cda-not-sent" then .ok .notSent
  else if identifier = "cda-value-sent" then .ok .valueSent
  else if identifier = "cda-mapping-sent" then .ok .mappingSent
  else if identifier = "cda-lsb" then .ok .lsb
  else if identifier = "cda-compute" then .ok .compute
  else if identifier = "cda-deviid" then .ok .deviceIid
  else if identifier = "cda-appiid" then .ok .appIid
  else invalidField ruleIndex entryIndex s!"unsupported CDA SID {sid} identifier {identifier}"

def cborMatchingOperator (registry : SidRegistry) (ruleIndex entryIndex sid : Nat)
    (valueList : Option CborValue) : Result MatchingOperator := do
  let identifier ← sidIdentifier registry ruleIndex entryIndex "mo" sid
  if identifier = "mo-equal" then .ok .equal
  else if identifier = "mo-ignore" then .ok .ignore
  else if identifier = "mo-match-mapping" then .ok .matchMapping
  else if identifier = "mo-msb" then
    match valueList with
    | none =>
        invalidField ruleIndex entryIndex "mo-msb requires a matching-operator value list"
    | some valueList => do
        let entries ← cborTargetEntries ruleIndex entryIndex valueList
        match entries with
        | [] =>
            invalidField ruleIndex entryIndex "mo-msb matching-operator value list is empty"
        | bits :: _ => do
            let bytes ← valueToBytes ruleIndex entryIndex bits.2
            match bytesToUsize bytes with
            | some bits => .ok (.msb bits)
            | none => invalidField ruleIndex entryIndex "mo-msb value does not fit usize"
  else
    invalidField ruleIndex entryIndex
      s!"unsupported matching operator SID {sid} identifier {identifier}"

def cborDirectionSelector (registry : SidRegistry) (ruleIndex entryIndex sid : Nat) :
    Result DirectionSelector := do
  let identifier ← sidIdentifier registry ruleIndex entryIndex "direction" sid
  if identifier = "di-bidirectional" then .ok .bidirectional
  else if identifier = "di-up" then .ok .up
  else if identifier = "di-down" then .ok .down
  else invalidField ruleIndex entryIndex s!"unknown direction SID {sid} identifier {identifier}"

def fieldLengthParameter (value : Option CborValue) (ruleIndex entryIndex : Nat) : Result Nat :=
  match value with
  | none => invalidField ruleIndex entryIndex "field-length function requires field-length-value"
  | some (.integer integer) =>
      orElse (valueToU64 (.integer integer)) fun reason =>
        invalidField ruleIndex entryIndex s!"field-length-value must be a usize integer: {reason}"
  | some (.bytes bytes) =>
      match bytesToUsize bytes with
      | some value => .ok value
      | none => invalidField ruleIndex entryIndex "field-length-value bytes do not fit usize"
  | some _ =>
      invalidField ruleIndex entryIndex "field-length-value must be an integer or byte string"

def fieldLengthFunction (registry : SidRegistry) (ruleIndex entryIndex sid : Nat)
    (value : Option CborValue) : Result FieldLength :=
  match registry.identifier sid with
  | .error _ => .ok (.functionSid sid)
  | .ok identifier =>
      if identifier = "fl-token-length" then .ok .tokenLength
      else if identifier = "fl-variable" then .ok .variableBytes
      else if identifier = "fl-variable-bits" then .ok .variableBits
      else if identifier = "fl-length-bytes" then do
        let entry ← fieldLengthParameter value ruleIndex entryIndex
        .ok (.fromPreviousField entry .bytes)
      else if identifier = "fl-length-bits" then do
        let entry ← fieldLengthParameter value ruleIndex entryIndex
        .ok (.fromPreviousField entry .bits)
      else .ok (.functionSid sid)

def cborFieldLength (registry : SidRegistry) (value : CborValue) (key : Int)
    (functionValue : Option CborValue) (ruleIndex entryIndex : Nat) : Result FieldLength := do
  match ← requiredFieldValue value key ruleIndex entryIndex with
  | .integer integer =>
      match valueToU64 (.integer integer) with
      | .ok bits => .ok (.fixedBits bits)
      | .error _ =>
          invalidField ruleIndex entryIndex s!"field length key {key} is not a valid usize"
  | .tag 45 boxed => do
      let sid ← orElse (valueToU64 boxed) fun reason =>
        invalidField ruleIndex entryIndex
          s!"unsupported field-length function tag 45: {reason}"
      fieldLengthFunction registry ruleIndex entryIndex sid functionValue
  | _ => invalidField ruleIndex entryIndex s!"field length key {key} must be an integer"

/-- What both entry forms read after their field identity: keys 5 to 9, 12, 13 and 16. -/
def loadCborEntry (registry : SidRegistry) (ruleIndex entryOrder : Nat) (value : CborValue)
    (entryIndex : Nat) (field : FieldRef) : Result FieldRule := do
  let length ← cborFieldLength registry value 5 (mapValue value 6) ruleIndex entryOrder
  let direction ← cborDirectionSelector registry ruleIndex entryOrder
    (← requiredFieldU64 value 7 ruleIndex entryOrder)
  let fieldPosition ← requiredFieldUsize value 8 ruleIndex entryOrder
  let matching ← cborMatchingOperator registry ruleIndex entryOrder
    (← requiredFieldU64 value 12 ruleIndex entryOrder) (mapValue value 13)
  let action ← cborCda registry ruleIndex entryOrder
    (← requiredFieldU64 value 16 ruleIndex entryOrder)
  let target ← cborTargetValue (mapValue value 9) matching action ruleIndex entryOrder
  let rule : FieldRule :=
    ⟨field, length, fieldPosition, direction, target, matching, action, entryIndex⟩
  validateFieldRule ruleIndex rule
  .ok rule

def loadCborCoreconfField (registry : SidRegistry) (ruleIndex entryOrder : Nat)
    (value : CborValue) : Result FieldRule := do
  let entryIndex ← requiredFieldUsize value 1 ruleIndex entryOrder
  let fieldSid ← requiredFieldU64 value 2 ruleIndex entryOrder
  let fieldIdentifier ← sidIdentifier registry ruleIndex entryOrder "field" fieldSid
  let field ← resolveSupportedFieldRef ruleIndex entryOrder fieldIdentifier fieldSid
    (fieldRef fieldIdentifier fieldSid)
  loadCborEntry registry ruleIndex entryOrder value entryIndex field

def loadCborUniversalOptionField (registry : SidRegistry) (ruleIndex entryOrder : Nat)
    (value : CborValue) : Result FieldRule := do
  let entryIndex ← requiredFieldUsize value 1 ruleIndex entryOrder
  let spaceSid ← requiredFieldU64 value 3 ruleIndex entryOrder
  let spaceIdentifier ← sidIdentifier registry ruleIndex entryOrder "universal field space" spaceSid
  if spaceIdentifier ≠ "space-id-coap" then
    invalidField ruleIndex entryOrder
      s!"unsupported universal field space SID {spaceSid} identifier {spaceIdentifier}"
  else
    let optionNumber ← requiredFieldU64 value 4 ruleIndex entryOrder
    loadCborEntry registry ruleIndex entryOrder value entryIndex (.coapOption optionNumber)

def loadCborField (registry : SidRegistry) (ruleIndex entryOrder : Nat) (value : CborValue) :
    Result FieldRule :=
  match (mapValue value 2).isSome, (mapValue value 3).isSome, (mapValue value 4).isSome with
  | true, false, false => loadCborCoreconfField registry ruleIndex entryOrder value
  | false, true, true => loadCborUniversalOptionField registry ruleIndex entryOrder value
  | _, _, _ =>
      invalidField ruleIndex entryOrder
        ("entry must contain either field-id key 2 or both space-id key 3 and " ++
          "universal-value key 4")

def checkDuplicateIndexes (ruleIndex : Nat) (seen : List Nat) : List FieldRule → Result Unit
  | [] => .ok ()
  | field :: rest =>
      if field.entryIndex ∈ seen then
        invalidField ruleIndex field.entryIndex
          s!"duplicate field entry index {field.entryIndex}"
      else checkDuplicateIndexes ruleIndex (field.entryIndex :: seen) rest

def normalizeCborFields (ruleIndex : Nat) (fields : List FieldRule) : Result (List FieldRule) := do
  checkDuplicateIndexes ruleIndex [] fields
  .ok (fields.insertionSort (fun a b => a.entryIndex ≤ b.entryIndex))

/-- A nature value of 0 is treated as the default. -/
def cborRuleNature (registry : SidRegistry) (ruleIndex : Nat) (ruleValue : CborValue) :
    Result RuleNature :=
  match mapValue ruleValue 3 with
  | none => .ok .compression
  | some natureValue => do
      let sid ← orElse (valueToU64 natureValue) fun reason =>
        invalidRule ruleIndex s!"invalid rule nature key 3: {reason}"
      if sid = 0 then .ok .compression
      else
        let identifier ← sidIdentifier registry ruleIndex 0 "nature" sid
        if identifier = "nature-compression" then .ok .compression
        else if identifier = "nature-no-compression" then .ok .noCompression
        else if identifier = "nature-fragmentation" then .ok .fragmentation
        else if identifier = "nature-management" then .ok .management
        else
          invalidRule ruleIndex s!"unsupported rule nature SID {sid} identifier {identifier}"

def cborEntryValues (ruleIndex : Nat) (nature : RuleNature) (ruleValue : CborValue) :
    Result (List CborValue) :=
  match mapValue ruleValue 23 with
  | some (.array values) => .ok values
  | some _ => invalidRule ruleIndex "invalid entry list key 23: value is not an array"
  | none =>
      if nature = .noCompression ∨ nature = .fragmentation then .ok []
      else
        invalidRule ruleIndex "missing required entry list key 23 for compression rule"

def loadCborRule (registry : SidRegistry) (ruleIndex : Nat) (ruleValue : CborValue) :
    Result Rule := do
  let ruleIdLength ← orElse (requiredU64 ruleValue 1) fun reason =>
    invalidRule ruleIndex s!"invalid rule ID length key 1: {reason}"
  let ruleId ← orElse (requiredU64 ruleValue 2) fun reason =>
    invalidRule ruleIndex s!"invalid rule ID value key 2: {reason}"
  validateRuleId ruleIndex ruleId ruleIdLength
  let nature ← cborRuleNature registry ruleIndex ruleValue
  let entryValues ← cborEntryValues ruleIndex nature ruleValue
  let fields ← mapIndexed (loadCborField registry ruleIndex) 0 entryValues
  let fields ← normalizeCborFields ruleIndex fields
  .ok ⟨⟨ruleId, ruleIdLength⟩, fields, nature⟩

/-- `from_cbor_slice` after `ciborium` decoded the document. -/
def RuleContext.fromCbor (root : CborValue) (registry : SidRegistry) : Result RuleContext := do
  let envelope ← orElse (requiredMapValue root 2574) fun reason =>
    fail (.cbor s!"missing CORECONF root 2574: {reason}")
  let ruleValues ← orElse (requiredArray envelope 23) fun reason =>
    fail (.cbor s!"invalid rule list key 23: {reason}")
  let rules ← mapIndexed (loadCborRule registry) 0 ruleValues
  validateRuleIdPrefixes rules
  .ok ⟨⟨rules, registry⟩⟩

/-- What either loader accepts. -/
inductive RuleContext.Loaded : RuleContext → Prop where
  | json {ctx : RuleContext} (file : RuleFile) (registry : SidRegistry) :
      RuleContext.fromJson file registry = .ok ctx → Loaded ctx
  | cbor {ctx : RuleContext} (root : CborValue) (registry : SidRegistry) :
      RuleContext.fromCbor root registry = .ok ctx → Loaded ctx

end SchcCore
