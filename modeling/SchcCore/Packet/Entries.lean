import SchcCore.Packet.WellFormed

/- What the entries of a store say: which have to be there and in what range for a header, a
   datagram or a message to be written, and the bytes they then describe. -/
namespace SchcCore
open Outcome Bytes BigEndian BitList FieldStore

/- Numbers. -/

/-- The value is a number below `limit`. -/
def FieldValue.Below (v : FieldValue) (limit : Nat) : Prop := v.bitLen ≤ 64 ∧ toNat v.bits < limit

namespace FieldStore
variable (fields : FieldStore) (field : FieldRef) (scope : PacketScope)

/-- The first value of a field in a scope is a number below `limit`. -/
def Holds (limit : Nat) : Prop :=
  ∃ v, fields.firstByFieldScope field scope = some v ∧ v.Below limit

/-- If there is one. -/
def MayHold (limit : Nat) : Prop :=
  ∀ v, fields.firstByFieldScope field scope = some v → v.Below limit

/-- That number, and zero where there is none. -/
def number : Nat :=
  ((fields.firstByFieldScope field scope).map (fun v : FieldValue => toNat v.bits)).getD 0

/-- The bytes of the first value of a field in a scope. -/
def content : List UInt8 := ((fields.firstByFieldScope field scope).map (fun v : FieldValue => v.bytes)).getD []

/-- A length of 16 bits is stored, or else `counted` is one. -/
def Counts (counted : Nat) : Prop :=
  fields.MayHold field scope 65536 ∧
    (fields.containsFieldScope field scope = false → counted < 65536)

def countedAs (counted : Nat) : Nat :=
  if fields.containsFieldScope field scope then fields.number field scope else counted

end FieldStore

section
variable {fields : FieldStore} {field : FieldRef} {scope : PacketScope}

theorem narrowTo_eq_ok {limit : Nat} {reason : String} {value : FieldValue} {n : Nat} :
    narrowTo limit reason value = .ok n ↔ value.Below limit ∧ toNat value.bits = n := by
  rw [narrowTo, bind_eq_ok]
  constructor
  · rintro ⟨m, read, small⟩
    obtain ⟨narrow, rfl⟩ := FieldValue.toU64_ok read
    split at small
    · cases small
      exact ⟨⟨narrow, ‹_›⟩, rfl⟩
    · simp at small
  · rintro ⟨⟨narrow, small⟩, rfl⟩
    exact ⟨_, FieldValue.toU64_eq narrow, by rw [if_pos small]⟩

theorem firstValueAt_eq_ok {value : FieldValue} :
    firstValueAt fields field scope = .ok value ↔
      fields.firstByFieldScope field scope = some value := by
  unfold firstValueAt
  cases fields.firstByFieldScope field scope with
  | none => simp
  | some stored => simp

/-- A number that has to be there. -/
theorem narrowed_eq_ok {limit : Nat} {reason : String} {n : Nat} :
    (firstValueAt fields field scope >>= narrowTo limit reason) = .ok n ↔
      fields.Holds field scope limit ∧ fields.number field scope = n := by
  simp only [bind_eq_ok, firstValueAt_eq_ok, narrowTo_eq_ok, Holds, number]
  constructor
  · rintro ⟨value, found, small, rfl⟩
    exact ⟨⟨value, found, small⟩, by rw [found]; rfl⟩
  · rintro ⟨⟨value, found, small⟩, same⟩
    rw [found] at same
    exact ⟨value, found, small, same⟩

theorem firstU8At_eq_ok {n : Nat} : firstU8At fields field scope = .ok n ↔
    fields.Holds field scope 256 ∧ fields.number field scope = n := narrowed_eq_ok

theorem firstU16At_eq_ok {n : Nat} : firstU16At fields field scope = .ok n ↔
    fields.Holds field scope 65536 ∧ fields.number field scope = n := narrowed_eq_ok

theorem firstUsizeAt_eq_ok {n limit : Nat} : (firstUsizeAt fields field scope = .ok n ∧ n < limit) ↔
    fields.Holds field scope limit ∧ fields.number field scope = n := by
  simp only [firstUsizeAt, bind_eq_ok, firstValueAt_eq_ok, Holds, number]
  constructor
  · rintro ⟨⟨value, found, read⟩, small⟩
    obtain ⟨narrow, rfl⟩ := FieldValue.toU64_ok read
    exact ⟨⟨value, found, narrow, small⟩, by rw [found]; rfl⟩
  · rintro ⟨⟨value, found, narrow, small⟩, same⟩
    rw [found] at same
    cases same
    exact ⟨⟨value, found, FieldValue.toU64_eq narrow⟩, small⟩

theorem sentOrCounted_eq_ok {sentReason countedReason : String} {counted n : Nat} :
    sentOrCounted (fields.firstByFieldScope field scope) sentReason counted countedReason = .ok n ↔
      fields.Counts field scope counted ∧ fields.countedAs field scope counted = n := by
  unfold Counts MayHold countedAs number containsFieldScope
  cases fields.firstByFieldScope field scope with
  | some value => simp [sentOrCounted, narrowTo_eq_ok]
  | none =>
    simp only [sentOrCounted]
    split
    · rename_i small
      simp [small]
    · rename_i large
      simp [large]

theorem sentOrZero_eq_ok {reason : String} {n : Nat} {computes : Bool} :
    sentOrZero (fields.firstByFieldScope field scope) reason = .ok (n, computes) ↔
      fields.MayHold field scope 65536 ∧ fields.number field scope = n ∧
        (!fields.containsFieldScope field scope) = computes := by
  unfold MayHold number containsFieldScope
  cases fields.firstByFieldScope field scope with
  | some value => simp [sentOrZero, bind_eq_ok, narrowTo_eq_ok, and_assoc]
  | none => simp [sentOrZero]

theorem FieldStore.Holds.lt {limit : Nat} (holds : fields.Holds field scope limit) :
    fields.number field scope < limit := by
  obtain ⟨value, found, -, small⟩ := holds
  rw [number, found]
  exact small

theorem FieldStore.Holds.below {limit other : Nat} (holds : fields.Holds field scope limit)
    (small : fields.number field scope < other) : fields.Holds field scope other := by
  obtain ⟨value, found, narrow, -⟩ := holds
  rw [number, found] at small
  exact ⟨value, found, narrow, small⟩

/- Payloads. -/

theorem content_of_stored {value : FieldValue}
    (stored : fields.firstByFieldScope field scope = some value) :
    fields.content field scope = value.bytes := by
  rw [content, stored]
  rfl

/-- The payload of a protocol, or else the generic one. -/
def carriedContent (fields : FieldStore) (field : FieldRef) (scope : PacketScope) : List UInt8 :=
  if fields.containsFieldScope field scope then fields.content field scope
  else fields.content .payload scope

/-- Where both are stored they are the same. -/
def PayloadsAgree (fields : FieldStore) (field : FieldRef) (scope : PacketScope) : Prop :=
  fields.containsFieldScope field scope = true → fields.containsFieldScope .payload scope = true →
    fields.content field scope = fields.content .payload scope

theorem sharedPayload_eq_ok {bytes : List UInt8} :
    sharedPayload fields scope field = .ok bytes ↔
      PayloadsAgree fields field scope ∧ carriedContent fields field scope = bytes := by
  unfold sharedPayload PayloadsAgree carriedContent content containsFieldScope
  cases fields.firstByFieldScope field scope with
  | none => cases fields.firstByFieldScope .payload scope <;> simp
  | some own =>
    cases fields.firstByFieldScope .payload scope with
    | none => simp
    | some generic =>
      simp only [reject_eq_ok (invalidResidue_ne_ok _)]
      simp

end

/- The IPv6 header. -/

/-- The half of an address. -/
def FieldStore.HoldsHalf (fields : FieldStore) (name : KnownName) (scope : PacketScope) : Prop :=
  ∃ v, fields.firstByFieldScope (.ipv6 (.known name)) scope = some v ∧ v.bitLen = 64

/-- The header of a scope, in front of so many bytes. -/
structure HeaderReady (fields : FieldStore) (scope : PacketScope) (size : Nat) : Prop where
  version : fields.Holds (.ipv6 (.known .ipv6Version)) scope 256
  six : fields.number (.ipv6 (.known .ipv6Version)) scope = 6
  trafficClass : fields.Holds (.ipv6 (.known .ipv6TrafficClass)) scope 256
  flowLabel : fields.Holds (.ipv6 (.known .ipv6FlowLabel)) scope 0x100000
  hopLimit : fields.Holds (.ipv6 (.known .ipv6HopLimit)) scope 256
  length : fields.Counts (.ipv6 (.known .ipv6PayloadLength)) scope size
  devPrefix : fields.HoldsHalf .ipv6DevPrefix scope
  devIid : fields.HoldsHalf .ipv6DevIid scope
  appPrefix : fields.HoldsHalf .ipv6AppPrefix scope
  appIid : fields.HoldsHalf .ipv6AppIid scope

def deviceAddress (fields : FieldStore) (scope : PacketScope) : List UInt8 :=
  toBytes 8 (fields.number (.ipv6 (.known .ipv6DevPrefix)) scope) ++
    toBytes 8 (fields.number (.ipv6 (.known .ipv6DevIid)) scope)

def applicationAddress (fields : FieldStore) (scope : PacketScope) : List UInt8 :=
  toBytes 8 (fields.number (.ipv6 (.known .ipv6AppPrefix)) scope) ++
    toBytes 8 (fields.number (.ipv6 (.known .ipv6AppIid)) scope)

/-- Source and destination. -/
def describedAddresses (direction : Direction) (fields : FieldStore) (scope : PacketScope) :
    List UInt8 × List UInt8 :=
  match direction with
  | .up => (deviceAddress fields scope, applicationAddress fields scope)
  | .down => (applicationAddress fields scope, deviceAddress fields scope)

section
variable {direction : Direction} {fields : FieldStore} {scope : PacketScope}

theorem endpointAddress_eq_ok {prefixName iidName : KnownName} {address : List UInt8} :
    endpointAddress fields scope (.ipv6 (.known prefixName)) (.ipv6 (.known iidName)) =
        .ok address ↔
      (fields.HoldsHalf prefixName scope ∧ fields.HoldsHalf iidName scope) ∧
        toBytes 8 (fields.number (.ipv6 (.known prefixName)) scope) ++
          toBytes 8 (fields.number (.ipv6 (.known iidName)) scope) = address := by
  have half : ∀ {value : FieldValue} {n}, fieldU64 value = .ok n ↔
      value.bitLen = 64 ∧ toNat value.bits = n := by
    intro value n
    rw [fieldU64, reject_eq_ok (invalidResidue_ne_ok _), not_not]
    constructor
    · rintro ⟨wide, read⟩
      exact ⟨wide, (FieldValue.toU64_ok read).2.symm⟩
    · rintro ⟨wide, rfl⟩
      exact ⟨wide, FieldValue.toU64_eq (by omega)⟩
  simp only [endpointAddress, bind_eq_ok, firstValueAt_eq_ok, half, HoldsHalf, number]
  constructor
  · rintro ⟨high, highFound, low, lowFound, _, ⟨highWide, rfl⟩, _, ⟨lowWide, rfl⟩, made⟩
    cases made
    exact ⟨⟨⟨high, highFound, highWide⟩, low, lowFound, lowWide⟩, by rw [highFound, lowFound]; rfl⟩
  · rintro ⟨⟨⟨high, highFound, highWide⟩, low, lowFound, lowWide⟩, made⟩
    rw [highFound, lowFound] at made
    exact ⟨high, highFound, low, lowFound, _, ⟨highWide, rfl⟩, _, ⟨lowWide, rfl⟩, by rw [← made]; rfl⟩

/-- The halves of both addresses are there. -/
def AddressesReady (fields : FieldStore) (scope : PacketScope) : Prop :=
  (fields.HoldsHalf .ipv6DevPrefix scope ∧ fields.HoldsHalf .ipv6DevIid scope) ∧
    fields.HoldsHalf .ipv6AppPrefix scope ∧ fields.HoldsHalf .ipv6AppIid scope

theorem endpointAddresses_eq_ok {addresses : List UInt8 × List UInt8} :
    endpointAddresses direction fields scope = .ok addresses ↔
      AddressesReady fields scope ∧ describedAddresses direction fields scope = addresses := by
  simp only [endpointAddresses, bind_eq_ok, endpointAddress_eq_ok, AddressesReady]
  constructor
  · rintro ⟨_, ⟨device, rfl⟩, _, ⟨application, rfl⟩, made⟩
    refine ⟨⟨device, application⟩, ?_⟩
    cases direction <;> cases made <;> rfl
  · rintro ⟨⟨device, application⟩, rfl⟩
    refine ⟨_, ⟨device, rfl⟩, _, ⟨application, rfl⟩, ?_⟩
    cases direction <;> rfl

/-- The header as its entries give it, around a segment. -/
def describedHeader (direction : Direction) (fields : FieldStore) (scope : PacketScope)
    (nextHeader : UInt8) (segment : List UInt8) : List UInt8 :=
  toBytes 4 ((6 <<< 28) ||| (fields.number (.ipv6 (.known .ipv6TrafficClass)) scope <<< 20) |||
      fields.number (.ipv6 (.known .ipv6FlowLabel)) scope) ++
    toBytes 2 (fields.countedAs (.ipv6 (.known .ipv6PayloadLength)) scope segment.length) ++
    [nextHeader, UInt8.ofNat (fields.number (.ipv6 (.known .ipv6HopLimit)) scope)] ++
    (describedAddresses direction fields scope).1 ++ (describedAddresses direction fields scope).2

/-- The header of a scope is written exactly when its entries are ready. -/
theorem reconstructIpv6WithUpper_eq_ok {nextHeader : UInt8} {upper packet : List UInt8}
    {computes : Bool} :
    reconstructIpv6WithUpper direction fields scope nextHeader upper computes = .ok packet ↔
      HeaderReady fields scope upper.length ∧
        ∃ filled, withChecksum (describedAddresses direction fields scope).1
            (describedAddresses direction fields scope).2 nextHeader upper computes = .ok filled ∧
          describedHeader direction fields scope nextHeader upper ++ filled = packet := by
  have ranges : ∀ version flowLabel : Nat,
      ¬ (version ≠ 6 ∨ flowLabel > 0x000fffff) ↔ version = 6 ∧ flowLabel < 0x100000 := by
    intro version flowLabel
    omega
  simp only [reconstructIpv6WithUpper, bind_eq_ok, reject_eq_ok (invalidResidue_ne_ok _), ranges,
    sentOrCounted_eq_ok, endpointAddresses_eq_ok, firstU8At_eq_ok]
  constructor
  · rintro ⟨_, ⟨version, rfl⟩, _, ⟨trafficClass, rfl⟩, flowLabel, labelRead, _, ⟨hopLimit, rfl⟩, _,
      ⟨length, rfl⟩, _, ⟨⟨⟨devPrefix, devIid⟩, appPrefix, appIid⟩, rfl⟩, ⟨six, small⟩, filled, summed,
      made⟩
    obtain ⟨label, rfl⟩ := firstUsizeAt_eq_ok.mp ⟨labelRead, small⟩
    cases made
    refine ⟨⟨version, six, trafficClass, label, hopLimit, length, devPrefix, devIid, appPrefix,
      appIid⟩, filled, summed, ?_⟩
    rw [six]
    simp only [describedHeader, List.append_assoc]
  · rintro ⟨ready, filled, summed, rfl⟩
    obtain ⟨labelRead, small⟩ := firstUsizeAt_eq_ok.mpr ⟨ready.flowLabel, rfl⟩
    refine ⟨_, ⟨ready.version, rfl⟩, _, ⟨ready.trafficClass, rfl⟩, _, labelRead, _,
      ⟨ready.hopLimit, rfl⟩, _, ⟨ready.length, rfl⟩, _, ⟨⟨⟨ready.devPrefix, ready.devIid⟩,
      ready.appPrefix, ready.appIid⟩, rfl⟩, ⟨ready.six, small⟩, filled, summed, ?_⟩
    rw [ready.six]
    simp only [describedHeader, List.append_assoc]

end

/- CoAP. -/

/-- The bytes that extend a delta or a length. -/
def extendedSize (n : Nat) : Nat := if n ≤ 12 then 0 else if n ≤ 268 then 1 else 2

def optionsSize : Nat → List CoapOption → Nat
  | _, [] => 0
  | previous, option :: options =>
      1 + extendedSize (option.number.toNat - previous) + extendedSize option.value.length +
        option.value.length + optionsSize option.number.toNat options

def CoapMessage.size (m : CoapMessage) : Nat :=
  4 + m.token.length + optionsSize 0 m.options + (if m.payload = [] then 0 else m.payload.length + 1)

theorem length_encodeExtended {n : Nat} {nibble : UInt8} {extra : List UInt8}
    (encoded : encodeExtended n = .ok (nibble, extra)) : extra.length = extendedSize n := by
  unfold encodeExtended at encoded
  unfold extendedSize
  split at encoded
  · cases encoded
    simp [*]
  · split at encoded
    · cases encoded
      simp [*]
    · split at encoded
      · cases encoded
        simp [*]
      · simp at encoded

theorem length_optionBytes {previous : Nat} {options : List CoapOption} {bytes : List UInt8}
    (written : CoapMessage.optionBytes previous options = .ok bytes) :
    bytes.length = optionsSize previous options := by
  induction options generalizing previous bytes with
  | nil =>
    cases written
    rfl
  | cons option options ih =>
    unfold CoapMessage.optionBytes at written
    split at written
    · simp at written
    · split at written
      · simp at written
      · simp only [bind_eq_ok] at written
        obtain ⟨⟨_, delta⟩, deltaWritten, ⟨_, length⟩, lengthWritten, later, rest, made⟩ := written
        cases made
        have first := length_encodeExtended deltaWritten
        have second := length_encodeExtended lengthWritten
        simp only [List.length_cons, List.length_append, first, second, ih rest, optionsSize]
        omega

theorem length_toVec {m : CoapMessage} {bytes : List UInt8} (written : m.toVec = .ok bytes) :
    bytes.length = m.size := by
  unfold CoapMessage.toVec at written
  split at written
  · simp at written
  · rw [bind_eq_ok] at written
    obtain ⟨options, optionsWritten, made⟩ := written
    cases made
    simp only [List.length_cons, List.length_append, length_toBytes,
      length_optionBytes optionsWritten, CoapMessage.payloadBytes, CoapMessage.size]
    split <;> simp <;> omega

/-- The options of a scope, in the order of the entries. -/
def storedOptions (scope : PacketScope) (fields : FieldStore) : List CoapOption :=
  fields.filterMap fun entry => match entry.1.field with
    | .coapOption number =>
        if entry.1.scope = scope then some ⟨UInt32.ofNat number, entry.2.bytes⟩ else none
    | _ => none

/-- An entry of an option has a number of 32 bits and a length that the encoder can write. -/
def OptionReady (scope : PacketScope) (entry : FieldKey × FieldValue) : Prop :=
  ∀ number, entry.1.field = .coapOption number → entry.1.scope = scope →
    number < 2 ^ 32 ∧ entry.2.bytes.length ≤ 65804

theorem coapOption_new_eq_ok {number : UInt32} {value : List UInt8} {option : CoapOption} :
    CoapOption.new number value = .ok option ↔ value.length ≤ 65804 ∧ ⟨number, value⟩ = option := by
  rw [CoapOption.new, reject_eq_ok (packetError_ne_ok _ _), reject_eq_ok (packetError_ne_ok _ _)]
  constructor
  · rintro ⟨-, short, made⟩
    cases made
    exact ⟨by omega, rfl⟩
  · rintro ⟨short, rfl⟩
    exact ⟨by omega, by omega, rfl⟩

theorem coapOptions_eq_ok {scope : PacketScope} {fields : FieldStore} {options : List CoapOption} :
    coapOptions scope fields = .ok options ↔
      (∀ entry ∈ fields, OptionReady scope entry) ∧ storedOptions scope fields = options := by
  induction fields generalizing options with
  | nil => simp [coapOptions, storedOptions]
  | cons entry fields ih =>
    obtain ⟨key, value⟩ := entry
    rw [List.forall_mem_cons, storedOptions, List.filterMap_cons]
    unfold coapOptions
    cases kind : key.field with
    | coapOption number =>
      dsimp only
      by_cases here : key.scope = scope
      · have ready : OptionReady scope (key, value) ↔
            number < 2 ^ 32 ∧ value.bytes.length ≤ 65804 := by
          constructor
          · intro ready
            exact ready number kind here
          · rintro bounds other same -
            rw [kind] at same
            cases same
            exact bounds
        rw [if_pos here, if_pos here, ready]
        by_cases small : number < 2 ^ 32
        · rw [if_pos small]
          simp only [bind_eq_ok, coapOption_new_eq_ok, ih]
          constructor
          · rintro ⟨_, ⟨short, rfl⟩, _, ⟨rest, rfl⟩, made⟩
            cases made
            exact ⟨⟨⟨small, short⟩, rest⟩, rfl⟩
          · rintro ⟨⟨⟨-, short⟩, rest⟩, rfl⟩
            exact ⟨_, ⟨short, rfl⟩, _, ⟨rest, rfl⟩, rfl⟩
        · rw [if_neg small]
          constructor
          · intro made
            exact absurd made (invalidResidue_ne_ok _ _)
          · rintro ⟨⟨⟨fits, -⟩, -⟩, -⟩
            exact absurd fits small
      · rw [if_neg here, if_neg here, ih]
        have ready : OptionReady scope (key, value) := fun _ _ there => absurd there here
        simp only [ready, true_and, storedOptions]
    | _ =>
      have ready : OptionReady scope (key, value) := by
        intro number same
        rw [kind] at same
        cases same
      simp only [ih, ready, true_and, storedOptions]

/-- The CoAP message of a scope. -/
def coapMessage (fields : FieldStore) (scope : PacketScope) : CoapMessage where
  version := UInt8.ofNat (fields.number (.coap (.known .coapVersion)) scope)
  messageType := UInt8.ofNat (fields.number (.coap (.known .coapType)) scope)
  code := UInt8.ofNat (fields.number (.coap (.known .coapCode)) scope)
  messageId := UInt16.ofNat (fields.number (.coap (.known .coapMid)) scope)
  token := fields.content (.coap (.known .coapToken)) scope
  options := storedOptions scope fields
  payload := carriedContent fields (.coap (.known .coapPayload)) scope

structure CoapReady (fields : FieldStore) (scope : PacketScope) : Prop where
  version : fields.Holds (.coap (.known .coapVersion)) scope 4
  messageType : fields.Holds (.coap (.known .coapType)) scope 4
  tokenLength : fields.Holds (.coap (.known .coapTkl)) scope 9
  code : fields.Holds (.coap (.known .coapCode)) scope 256
  messageId : fields.Holds (.coap (.known .coapMid)) scope 65536
  /-- The token has the length that is stored for it; without one there is none. -/
  token : ((fields.firstByFieldScope (.coap (.known .coapToken)) scope).map
    (fun v : FieldValue => v.bitLen)).getD 0 = 8 * fields.number (.coap (.known .coapTkl)) scope
  options : ∀ entry ∈ fields, OptionReady scope entry
  order : CoapMessage.OptionsEncodable 0 (storedOptions scope fields)
  payload : PayloadsAgree fields (.coap (.known .coapPayload)) scope

section
variable {fields : FieldStore} {scope : PacketScope}

theorem coapToken_eq_ok {tokenLen : Nat} {token : List UInt8} :
    coapToken fields scope tokenLen = .ok token ↔
      ((fields.firstByFieldScope (.coap (.known .coapToken)) scope).map
        (fun v : FieldValue => v.bitLen)).getD 0 = 8 * tokenLen ∧
      fields.content (.coap (.known .coapToken)) scope = token := by
  unfold coapToken content
  cases fields.firstByFieldScope (.coap (.known .coapToken)) scope with
  | none =>
    simp only [Option.map_none, Option.getD_none]
    split
    · rename_i zero
      simp [zero]
    · rename_i some
      simp
      omega
  | some value =>
    have size := value.size
    have empty : value.bitLen = 0 → value.bytes = [] := by
      intro zero
      rw [zero] at size
      exact List.length_eq_zero_iff.mp size
    simp only [reject_eq_ok (invalidResidue_ne_ok _), Option.map_some, Option.getD_some, not_not,
      not_and, Except.ok.injEq]
    constructor
    · rintro ⟨wide, -, rfl⟩
      exact ⟨by omega, rfl⟩
    · rintro ⟨wide, rfl⟩
      exact ⟨by omega, fun zero => empty (by omega), rfl⟩

theorem fromParts_eq_ok {version messageType code : UInt8} {messageId : UInt16}
    {token payload : List UInt8} {options : List CoapOption} {m : CoapMessage} :
    CoapMessage.fromParts version messageType code messageId token options payload = .ok m ↔
      (version ≤ 3 ∧ messageType ≤ 3 ∧ token.length ≤ 8 ∧
        CoapMessage.checkOptionOrder 0 options = .ok ()) ∧
      ⟨version, messageType, code, messageId, token, options, payload⟩ = m := by
  simp only [CoapMessage.fromParts, reject_eq_ok (packetError_ne_ok _ _), bind_eq_ok]
  constructor
  · rintro ⟨versionSmall, typeSmall, tokenShort, _, ordered, made⟩
    cases made
    exact ⟨⟨UInt8.not_lt.mp versionSmall, UInt8.not_lt.mp typeSmall, by omega, ordered⟩, rfl⟩
  · rintro ⟨⟨versionSmall, typeSmall, tokenShort, ordered⟩, rfl⟩
    exact ⟨UInt8.not_lt.mpr versionSmall, UInt8.not_lt.mpr typeSmall, by omega, (), ordered, rfl⟩

/-- A number of two bits stays one as a byte. -/
theorem two_bits_le {n : Nat} (small : n < 4) : UInt8.ofNat n ≤ 3 := by
  rw [UInt8.le_iff_toNat_le, UInt8.toNat_ofNat']
  exact Nat.le_trans (Nat.mod_le _ _) (by simpa using Nat.le_of_lt_succ small)

theorem coapToken_short (length : ((fields.firstByFieldScope (.coap (.known .coapToken)) scope).map
      (fun v : FieldValue => v.bitLen)).getD 0 = 8 * fields.number (.coap (.known .coapTkl)) scope)
    (small : fields.number (.coap (.known .coapTkl)) scope < 9) :
    (fields.content (.coap (.known .coapToken)) scope).length ≤ 8 := by
  unfold content
  cases stored : fields.firstByFieldScope (.coap (.known .coapToken)) scope with
  | none => simp
  | some value =>
    have size := value.size
    rw [stored, Option.map_some, Option.getD_some] at length
    rw [Option.map_some, Option.getD_some]
    omega

/-- A CoAP message is written exactly when its entries are ready. -/
theorem reconstructCoap_eq_ok {bytes : List UInt8} :
    reconstructCoap fields scope = .ok bytes ↔
      CoapReady fields scope ∧ (coapMessage fields scope).toVec = .ok bytes := by
  have lengths : (∀ entry ∈ fields, OptionReady scope entry) →
      ∀ option ∈ storedOptions scope fields, option.value.length ≤ 65804 := by
    intro ready option member
    obtain ⟨entry, inside, made⟩ := List.mem_filterMap.mp member
    split at made
    · rename_i number kind
      split at made
      · rename_i here
        cases made
        exact (ready entry inside number kind here).2
      · cases made
    · cases made
  have ranges : ∀ version messageType tokenLength : Nat,
      ¬ (version > 3 ∨ messageType > 3 ∨ tokenLength > 8) ↔
        version < 4 ∧ messageType < 4 ∧ tokenLength < 9 := by
    intro version messageType tokenLength
    omega
  simp only [reconstructCoap, bind_eq_ok, firstU8At_eq_ok, firstU16At_eq_ok,
    reject_eq_ok (invalidResidue_ne_ok _), coapToken_eq_ok, coapOptions_eq_ok, sharedPayload_eq_ok,
    fromParts_eq_ok, ranges]
  constructor
  · rintro ⟨_, ⟨version, rfl⟩, _, ⟨messageType, rfl⟩, _, ⟨tokenLength, rfl⟩, _, ⟨code, rfl⟩, _,
      ⟨messageId, rfl⟩, ⟨versionSmall, typeSmall, tokenSmall⟩, _, ⟨token, rfl⟩, _, ⟨options, rfl⟩, _,
      ⟨payload, rfl⟩, _, ⟨⟨-, -, -, ordered⟩, rfl⟩, written⟩
    have encodable := (CoapMessage.options_encodable_iff 0 _).mpr ⟨ordered, lengths options⟩
    exact ⟨⟨version.below versionSmall, messageType.below typeSmall, tokenLength.below tokenSmall,
      code, messageId, token, options, encodable, payload⟩, written⟩
  · rintro ⟨ready, written⟩
    have ordered := ((CoapMessage.options_encodable_iff 0 _).mp ready.order).1
    exact ⟨_, ⟨ready.version.below (by have := ready.version.lt; omega), rfl⟩, _,
      ⟨ready.messageType.below (by have := ready.messageType.lt; omega), rfl⟩, _,
      ⟨ready.tokenLength.below (by have := ready.tokenLength.lt; omega), rfl⟩, _, ⟨ready.code, rfl⟩, _,
      ⟨ready.messageId, rfl⟩, ⟨ready.version.lt, ready.messageType.lt, ready.tokenLength.lt⟩, _,
      ⟨ready.token, rfl⟩, _, ⟨ready.options, rfl⟩, _, ⟨ready.payload, rfl⟩, _,
      ⟨⟨two_bits_le ready.version.lt, two_bits_le ready.messageType.lt,
        coapToken_short ready.token ready.tokenLength.lt, ordered⟩, rfl⟩, written⟩

/-- What is ready is written. -/
theorem CoapReady.written (ready : CoapReady fields scope) :
    ∃ bytes, (coapMessage fields scope).toVec = .ok bytes := by
  have lengths : ∀ option ∈ storedOptions scope fields, option.value.length ≤ 65804 :=
    ((CoapMessage.options_encodable_iff 0 _).mp ready.order).2
  have ordered := ((CoapMessage.options_encodable_iff 0 _).mp ready.order).1
  have made : CoapMessage.fromParts _ _ _ _ _ _ _ = .ok (coapMessage fields scope) :=
    fromParts_eq_ok.mpr ⟨⟨two_bits_le ready.version.lt, two_bits_le ready.messageType.lt,
      coapToken_short ready.token ready.tokenLength.lt, ordered⟩, rfl⟩
  obtain ⟨bytes, written, -⟩ := CoapMessage.parse_of_fromParts lengths made
  exact ⟨bytes, written⟩

end

/- UDP. -/

/-- A CoAP message is carried over UDP, in the outer packet only. -/
def carriesCoap (fields : FieldStore) (scope : PacketScope) : Bool :=
  scope = .outer && fields.containsFieldScope (.coap (.known .coapVersion)) scope

/-- The payload of UDP: the CoAP message, or else the payload that is stored. -/
def UdpPayload (fields : FieldStore) (scope : PacketScope) (payload : List UInt8) : Prop :=
  if carriesCoap fields scope then (coapMessage fields scope).toVec = .ok payload
  else carriedContent fields (.udp (.known .udpPayload)) scope = payload

def udpSize (fields : FieldStore) (scope : PacketScope) : Nat :=
  8 + if carriesCoap fields scope then (coapMessage fields scope).size
    else (carriedContent fields (.udp (.known .udpPayload)) scope).length

structure UdpReady (fields : FieldStore) (scope : PacketScope) : Prop where
  devPort : fields.Holds (.udp (.known .udpDevPort)) scope 65536
  appPort : fields.Holds (.udp (.known .udpAppPort)) scope 65536
  coap : carriesCoap fields scope = true → CoapReady fields scope
  /-- A payload that is stored beside a CoAP message is that message. -/
  copy : carriesCoap fields scope = true → ∀ v,
    fields.firstByFieldScope (.udp (.known .udpPayload)) scope = some v →
      (coapMessage fields scope).toVec = .ok v.bytes
  payload : carriesCoap fields scope = false →
    PayloadsAgree fields (.udp (.known .udpPayload)) scope
  length : fields.Counts (.udp (.known .udpLength)) scope (udpSize fields scope)
  checksum : fields.MayHold (.udp (.known .udpChecksum)) scope 65536

/-- The datagram as its entries give it, around a payload; zero for a checksum to be computed. -/
def describedUdp (direction : Direction) (fields : FieldStore) (scope : PacketScope)
    (payload : List UInt8) : List UInt8 :=
  let devPort := toBytes 2 (fields.number (.udp (.known .udpDevPort)) scope)
  let appPort := toBytes 2 (fields.number (.udp (.known .udpAppPort)) scope)
  (match direction with
    | .up => devPort ++ appPort
    | .down => appPort ++ devPort) ++
    toBytes 2 (fields.countedAs (.udp (.known .udpLength)) scope (udpSize fields scope)) ++
    toBytes 2 (fields.number (.udp (.known .udpChecksum)) scope) ++ payload

section
variable {direction : Direction} {fields : FieldStore} {scope : PacketScope}

theorem UdpPayload.size {payload : List UInt8} (described : UdpPayload fields scope payload) :
    8 + payload.length = udpSize fields scope := by
  unfold UdpPayload at described
  unfold udpSize
  split at described
  · rename_i carried
    rw [if_pos carried, length_toVec described]
  · rename_i plain
    rw [if_neg plain, described]

theorem length_describedUdp {payload : List UInt8} (described : UdpPayload fields scope payload) :
    (describedUdp direction fields scope payload).length = udpSize fields scope := by
  rw [← described.size]
  cases direction <;> simp [describedUdp] <;> omega

theorem toVec_ne_nil {m : CoapMessage} {bytes : List UInt8} (written : m.toVec = .ok bytes) :
    bytes ≠ [] := by
  rintro rfl
  have size := length_toVec written
  rw [List.length_nil, CoapMessage.size] at size
  omega

/-- The payload of a datagram is found exactly when its entries agree. -/
theorem udpPayload_eq_ok {payload : List UInt8} :
    (carriedCoap fields scope >>= fun coap => udpPayload fields scope coap) = .ok payload ↔
      ((carriesCoap fields scope = true → CoapReady fields scope) ∧
        (carriesCoap fields scope = true → ∀ v,
          fields.firstByFieldScope (.udp (.known .udpPayload)) scope = some v →
            (coapMessage fields scope).toVec = .ok v.bytes) ∧
        (carriesCoap fields scope = false →
          PayloadsAgree fields (.udp (.known .udpPayload)) scope)) ∧
        UdpPayload fields scope payload := by
  have carried : carriedCoap fields scope =
      if carriesCoap fields scope then reconstructCoap fields scope else .ok [] := by
    simp [carriedCoap, carriesCoap]
  rw [carried, UdpPayload]
  by_cases coap : carriesCoap fields scope = true
  · simp only [coap, ↓reduceIte, bind_eq_ok, reconstructCoap_eq_ok, forall_const, reduceCtorEq,
      false_implies, and_true]
    constructor
    · rintro ⟨bytes, ⟨ready, written⟩, found⟩
      rw [udpPayload, if_neg (toVec_ne_nil written)] at found
      split at found
      · rename_i value stored
        rw [reject_eq_ok (invalidResidue_ne_ok _), not_not] at found
        obtain ⟨same, made⟩ := found
        cases made
        refine ⟨⟨ready, fun v copied => ?_⟩, written⟩
        rw [stored] at copied
        cases copied
        rw [written, same]
      · rename_i absent
        cases found
        refine ⟨⟨ready, fun v copied => ?_⟩, written⟩
        rw [absent] at copied
        cases copied
    · rintro ⟨⟨ready, copy⟩, written⟩
      refine ⟨payload, ⟨ready, written⟩, ?_⟩
      rw [udpPayload, if_neg (toVec_ne_nil written)]
      split
      · rename_i value stored
        have same := copy value stored
        rw [written] at same
        cases same
        rw [if_neg (by simp)]
      · rfl
  · rw [Bool.not_eq_true] at coap
    simp only [coap, Bool.false_eq_true, ↓reduceIte, false_implies, true_and, ok_bind, udpPayload,
      sharedPayload_eq_ok, forall_const]

/-- A datagram is written exactly when its entries are ready. -/
theorem reconstructUdp_eq_ok {made : List UInt8 × Bool} :
    reconstructUdp direction fields scope = .ok made ↔
      UdpReady fields scope ∧ ∃ payload, UdpPayload fields scope payload ∧
        (describedUdp direction fields scope payload,
          !fields.containsFieldScope (.udp (.known .udpChecksum)) scope) = made := by
  have payload : ∀ {coap payload : List UInt8}, carriedCoap fields scope = .ok coap →
      (udpPayload fields scope coap = .ok payload ↔
        (carriedCoap fields scope >>= fun coap => udpPayload fields scope coap) = .ok payload) := by
    intro coap payload carried
    rw [carried, ok_bind]
  simp only [reconstructUdp, bind_eq_ok, firstU16At_eq_ok, sentOrCounted_eq_ok]
  constructor
  · rintro ⟨coap, carried, _, ⟨devPort, rfl⟩, _, ⟨appPort, rfl⟩, bytes, found, _, ⟨length, rfl⟩,
      ⟨sum, computes⟩, summed, done⟩
    obtain ⟨checksum, rfl, rfl⟩ := sentOrZero_eq_ok.mp summed
    obtain ⟨⟨ready, copy, agree⟩, described⟩ := udpPayload_eq_ok.mp ((payload carried).mp found)
    rw [described.size] at length
    refine ⟨⟨devPort, appPort, ready, copy, agree, length, checksum⟩, bytes, described, ?_⟩
    cases done
    cases direction <;> simp only [describedUdp, described.size, List.append_assoc]
  · rintro ⟨ready, bytes, described, rfl⟩
    have whole := udpPayload_eq_ok.mpr ⟨⟨ready.coap, ready.copy, ready.payload⟩, described⟩
    obtain ⟨coap, carried, found⟩ := (bind_eq_ok _ _ _).mp whole
    have length := ready.length
    rw [← described.size] at length
    refine ⟨coap, carried, _, ⟨ready.devPort, rfl⟩, _, ⟨ready.appPort, rfl⟩, bytes, found, _,
      ⟨length, rfl⟩, _, sentOrZero_eq_ok.mpr ⟨ready.checksum, rfl, rfl⟩, ?_⟩
    cases direction <;> simp only [describedUdp, described.size, List.append_assoc]

end

/- ICMPv6. -/

def storedType (fields : FieldStore) (scope : PacketScope) : UInt8 :=
  UInt8.ofNat (fields.number (.icmpv6 (.known .icmpv6Type)) scope)

structure MessageReady (fields : FieldStore) (scope : PacketScope) : Prop where
  messageType : fields.Holds (.icmpv6 (.known .icmpv6Type)) scope 256
  code : fields.Holds (.icmpv6 (.known .icmpv6Code)) scope 256
  checksum : fields.MayHold (.icmpv6 (.known .icmpv6Checksum)) scope 65536

/-- Identifier and sequence number of an echo message are written. -/
def hasEchoWords (fields : FieldStore) (scope : PacketScope) : Bool :=
  isEchoType (storedType fields scope) &&
    fields.containsFieldScope (.icmpv6 (.known .icmpv6Identifier)) scope

/-- A message that is no error. -/
structure OrdinaryReady (fields : FieldStore) (scope : PacketScope) : Prop
    extends MessageReady fields scope where
  ordinary : isIcmpv6ErrorType (storedType fields scope) = false
  payload : PayloadsAgree fields (.icmpv6 (.known .icmpv6Payload)) scope
  identifier : hasEchoWords fields scope = true →
    fields.Holds (.icmpv6 (.known .icmpv6Identifier)) scope 65536
  sequence : hasEchoWords fields scope = true →
    fields.Holds (.icmpv6 (.known .icmpv6Sequence)) scope 65536

/-- The second word of an error. -/
def typeWordField (messageType : UInt8) : FieldRef :=
  if hasIcmpv6UnusedField messageType then .unused
  else .icmpv6 (.known (if messageType = 2 then .icmpv6Mtu else .icmpv6Pointer))

structure ErrorReady (fields : FieldStore) (scope : PacketScope) : Prop
    extends MessageReady fields scope where
  error : isIcmpv6ErrorType (storedType fields scope) = true
  word : ∃ v, fields.firstByFieldScope (typeWordField (storedType fields scope)) scope = some v ∧
    v.bitLen = 32

def describedWords (fields : FieldStore) (scope : PacketScope) : List UInt8 :=
  if hasEchoWords fields scope then
    toBytes 2 (fields.number (.icmpv6 (.known .icmpv6Identifier)) scope) ++
      toBytes 2 (fields.number (.icmpv6 (.known .icmpv6Sequence)) scope)
  else []

/-- The message as its entries give it, around what follows its checksum. -/
def describedMessage (fields : FieldStore) (scope : PacketScope) (rest : List UInt8) :
    List UInt8 :=
  [storedType fields scope, UInt8.ofNat (fields.number (.icmpv6 (.known .icmpv6Code)) scope)] ++
    toBytes 2 (fields.number (.icmpv6 (.known .icmpv6Checksum)) scope) ++ rest

def describedOrdinary (fields : FieldStore) (scope : PacketScope) : List UInt8 :=
  describedMessage fields scope
    (describedWords fields scope ++ carriedContent fields (.icmpv6 (.known .icmpv6Payload)) scope)

def ordinarySize (fields : FieldStore) (scope : PacketScope) : Nat :=
  4 + (if hasEchoWords fields scope then 4 else 0) +
    (carriedContent fields (.icmpv6 (.known .icmpv6Payload)) scope).length

section
variable {direction : Direction} {fields : FieldStore} {scope : PacketScope}

theorem length_describedOrdinary :
    (describedOrdinary fields scope).length = ordinarySize fields scope := by
  unfold describedOrdinary describedMessage describedWords ordinarySize
  split <;> simp <;> omega

theorem echoWords_eq_ok {words : List UInt8} :
    echoWords fields scope (storedType fields scope) = .ok words ↔
      ((hasEchoWords fields scope = true →
          fields.Holds (.icmpv6 (.known .icmpv6Identifier)) scope 65536) ∧
        (hasEchoWords fields scope = true →
          fields.Holds (.icmpv6 (.known .icmpv6Sequence)) scope 65536)) ∧
      describedWords fields scope = words := by
  have asked : echoWords fields scope (storedType fields scope) =
      if hasEchoWords fields scope then do
        let identifier ← firstU16At fields (.icmpv6 (.known .icmpv6Identifier)) scope
        let sequence ← firstU16At fields (.icmpv6 (.known .icmpv6Sequence)) scope
        .ok (toBytes 2 identifier ++ toBytes 2 sequence)
      else .ok [] := by
    simp [echoWords, hasEchoWords]
  rw [asked, describedWords]
  by_cases echo : hasEchoWords fields scope = true
  · simp only [echo, ↓reduceIte, forall_const, bind_eq_ok, firstU16At_eq_ok]
    constructor
    · rintro ⟨_, ⟨identifier, rfl⟩, _, ⟨sequence, rfl⟩, made⟩
      cases made
      exact ⟨⟨identifier, sequence⟩, rfl⟩
    · rintro ⟨⟨identifier, sequence⟩, rfl⟩
      exact ⟨_, ⟨identifier, rfl⟩, _, ⟨sequence, rfl⟩, rfl⟩
  · simp [echo]

theorem icmpv6TypeWord_eq_ok {messageType : UInt8} {word : FieldValue} :
    icmpv6TypeWord fields scope messageType = .ok word ↔
      fields.firstByFieldScope (typeWordField messageType) scope = some word := by
  unfold icmpv6TypeWord typeWordField
  split
  · cases fields.firstByFieldScope .unused scope <;> simp
  · split <;> rename_i found <;> simp [found]

/-- What an error carries: the embedded packet, of which a stored payload is a copy, or else that
    payload. -/
theorem icmpv6ErrorBody_eq_ok {inner : Result (List UInt8)} {body : List UInt8} :
    icmpv6ErrorBody inner fields scope = .ok body ↔
      if fields.containsFieldScope (.ipv6 (.known .ipv6Version)) .embedded then
        inner = .ok body ∧ (fields.containsFieldScope .payload scope = true →
          fields.content .payload scope = body)
      else fields.containsFieldScope .payload scope = true ∧ fields.content .payload scope = body := by
  have shared : sharedPayload fields scope .payload = .ok body ↔
      fields.content .payload scope = body := by
    simp [sharedPayload_eq_ok, PayloadsAgree, carriedContent]
  unfold icmpv6ErrorBody
  split
  · unfold containsFieldScope content
    rw [bind_eq_ok]
    cases stored : fields.firstByFieldScope .payload scope with
    | none => simp
    | some value =>
      simp only [reject_eq_ok (invalidResidue_ne_ok _), not_not]
      constructor
      · rintro ⟨bytes, made, same, done⟩
        cases done
        exact ⟨made, fun _ => same⟩
      · rintro ⟨made, same⟩
        exact ⟨body, made, same rfl, rfl⟩
  · split
    · rename_i stored
      simp [shared, stored]
    · rename_i absent
      simp [absent]

/-- A message is written exactly when its entries are ready. -/
theorem reconstructIcmpv6_eq_ok {inner : Result (List UInt8)} {made : List UInt8 × Bool} :
    reconstructIcmpv6 inner fields scope = .ok made ↔
      (OrdinaryReady fields scope ∧ (describedOrdinary fields scope,
        !fields.containsFieldScope (.icmpv6 (.known .icmpv6Checksum)) scope) = made) ∨
      (ErrorReady fields scope ∧ ∃ body, icmpv6ErrorBody inner fields scope = .ok body ∧
        (describedMessage fields scope
            (fields.content (typeWordField (storedType fields scope)) scope ++ body),
          !fields.containsFieldScope (.icmpv6 (.known .icmpv6Checksum)) scope) = made) := by
  simp only [reconstructIcmpv6, bind_eq_ok, firstU8At_eq_ok]
  constructor
  · rintro ⟨_, ⟨messageType, rfl⟩, _, ⟨code, rfl⟩, ⟨sum, computes⟩, summed, done⟩
    obtain ⟨checksum, rfl, rfl⟩ := sentOrZero_eq_ok.mp summed
    change (if isIcmpv6ErrorType (storedType fields scope) then _ else _) = _ at done
    split at done
    · rename_i error
      simp only [bind_eq_ok, reject_eq_ok (invalidResidue_ne_ok _)] at done
      obtain ⟨word, found, wide, body, carried, done⟩ := done
      cases done
      have stored : fields.firstByFieldScope (typeWordField (storedType fields scope)) scope =
          some word := icmpv6TypeWord_eq_ok.mp found
      have wide : word.bitLen = 32 := by omega
      refine .inr ⟨⟨⟨messageType, code, checksum⟩, error, word, stored, wide⟩, body, carried, ?_⟩
      simp only [describedMessage, content_of_stored stored, List.append_assoc]
      rfl
    · rename_i ordinary
      simp only [bind_eq_ok, sharedPayload_eq_ok] at done
      obtain ⟨_, ⟨agree, rfl⟩, words, echo, done⟩ := done
      obtain ⟨⟨identifier, sequence⟩, rfl⟩ := echoWords_eq_ok.mp echo
      cases done
      refine .inl ⟨⟨⟨messageType, code, checksum⟩, by simpa using ordinary, agree, identifier,
        sequence⟩, ?_⟩
      simp only [describedOrdinary, describedMessage, List.append_assoc]
      rfl
  · rintro (⟨ready, rfl⟩ | ⟨ready, body, carried, rfl⟩)
    · refine ⟨_, ⟨ready.messageType, rfl⟩, _, ⟨ready.code, rfl⟩, _,
        sentOrZero_eq_ok.mpr ⟨ready.checksum, rfl, rfl⟩, ?_⟩
      change (if isIcmpv6ErrorType (storedType fields scope) then _ else _) = _
      rw [if_neg (by simp [ready.ordinary])]
      simp only [bind_eq_ok, sharedPayload_eq_ok]
      refine ⟨_, ⟨ready.payload, rfl⟩, _, echoWords_eq_ok.mpr ⟨⟨ready.identifier, ready.sequence⟩, rfl⟩,
        ?_⟩
      simp only [describedOrdinary, describedMessage, List.append_assoc]
      rfl
    · obtain ⟨word, stored, wide⟩ := ready.word
      have size := word.size
      refine ⟨_, ⟨ready.messageType, rfl⟩, _, ⟨ready.code, rfl⟩, _,
        sentOrZero_eq_ok.mpr ⟨ready.checksum, rfl, rfl⟩, ?_⟩
      change (if isIcmpv6ErrorType (storedType fields scope) then _ else _) = _
      rw [if_pos ready.error]
      simp only [bind_eq_ok, reject_eq_ok (invalidResidue_ne_ok _)]
      refine ⟨word, icmpv6TypeWord_eq_ok.mpr stored, by omega, body, carried, ?_⟩
      simp only [describedMessage, content_of_stored stored, List.append_assoc]
      rfl

end

end SchcCore
