import SchcCore.Rule.Reordered

/- What CBOR rule documents can say: the rule sets that some document loads to, and for each of
   them a document that does. -/
namespace SchcCore
open Outcome Reorder

/- Identifiers. -/

/-- The SID of an identifier, in the 64 bits that a document gives it. -/
def SidRegistry.number (registry : SidRegistry) (identifier : String) : Option Nat :=
  (registry.sid identifier).toOption.filter (· < 2 ^ 64)

def SidRegistry.Lists (registry : SidRegistry) (identifier : String) : Prop :=
  (registry.number identifier).isSome

def DirectionSelector.identifier : DirectionSelector → String
  | .bidirectional => "di-bidirectional"
  | .up => "di-up"
  | .down => "di-down"

def MatchingOperator.identifier : MatchingOperator → String
  | .equal => "mo-equal"
  | .ignore => "mo-ignore"
  | .msb _ => "mo-msb"
  | .matchMapping => "mo-match-mapping"

def Cda.identifier : Cda → String
  | .notSent => "cda-not-sent"
  | .valueSent => "cda-value-sent"
  | .mappingSent => "cda-mapping-sent"
  | .lsb => "cda-lsb"
  | .compute => "cda-compute"
  | .deviceIid => "cda-deviid"
  | .appIid => "cda-appiid"

def RuleNature.identifier : RuleNature → String
  | .compression => "nature-compression"
  | .noCompression => "nature-no-compression"
  | .fragmentation => "nature-fragmentation"
  | .management => "nature-management"

/-- The identifier that resolves to a field, if there is one. -/
def FieldRef.identifier : FieldRef → Option String
  | .ipv6 name | .udp name | .coap name | .icmpv6 name => some name.text
  | .coapOption 3 => some "fid-coap-option-uri-host"
  | .coapOption 11 => some "fid-coap-option-uri-path"
  | .coapOption _ => none
  | .unused => some "fid-unused"
  | .payload => some "fid-payload"
  | .syntheticCoapMarker => some "fid-coap-payload-marker"
  | .unknownSid _ => none

/-- The identifier of a field-length function. -/
def FieldLength.function : FieldLength → Option String
  | .variableBytes => some "fl-variable"
  | .variableBits => some "fl-variable-bits"
  | .tokenLength => some "fl-token-length"
  | .fromPreviousField _ .bytes => some "fl-length-bytes"
  | .fromPreviousField _ .bits => some "fl-length-bits"
  | _ => none

/-- The functions that a length of their own stands for. -/
def lengthFunctions : List String :=
  ["fl-token-length", "fl-variable", "fl-variable-bits", "fl-length-bytes", "fl-length-bits"]

/- Documents. -/

/-- A map with the keys that have a value. -/
def record (fields : List (Int × Option CborValue)) : CborValue :=
  .map (fields.filterMap fun field => field.2.map fun value => (.integer field.1, value))

def natural (n : Nat) : CborValue := .integer n

def SidRegistry.toCbor (registry : SidRegistry) (identifier : String) : CborValue :=
  natural ((registry.number identifier).getD 0)

def listToCbor (values : List (List UInt8)) : CborValue :=
  .array (values.mapIdx fun i bytes => record [(1, some (natural i)), (2, some (.bytes bytes))])

def TargetValue.toCbor : TargetValue → Option CborValue
  | .none => Option.none
  | .bytes value => some (listToCbor [value])
  | .mapping values => some (listToCbor values)

/-- The value of key 5. -/
def FieldLength.toCbor (registry : SidRegistry) (length : FieldLength) : CborValue :=
  match length.function, length with
  | some function, _ => .tag 45 (registry.toCbor function)
  | none, .functionSid sid => .tag 45 (natural sid)
  | none, .fixedBits bits => natural bits
  | none, _ => .null

/-- The value of key 6. -/
def FieldLength.parameter : FieldLength → Option CborValue
  | .fromPreviousField entryIndex _ => some (natural entryIndex)
  | _ => none

/-- The value of key 13. -/
def MatchingOperator.values : MatchingOperator → Option CborValue
  | .msb bits => some (listToCbor [BigEndian.toBytes 8 bits])
  | _ => none

/-- The SID under key 2, for a field that the registry has an identifier of. -/
def FieldRef.sid (registry : SidRegistry) (field : FieldRef) : Option Nat :=
  field.identifier.bind registry.number

/-- The number under key 4, for an option without an identifier of its own. -/
def FieldRef.universal (registry : SidRegistry) (field : FieldRef) : Option Nat :=
  match field.sid registry, field with
  | none, .coapOption number => some number
  | _, _ => none

def FieldRule.toCbor (registry : SidRegistry) (field : FieldRule) : CborValue :=
  record [(1, some (natural field.entryIndex)),
    (2, (field.field.sid registry).map natural),
    (3, (field.field.universal registry).map fun _ => registry.toCbor "space-id-coap"),
    (4, (field.field.universal registry).map natural),
    (5, some (field.length.toCbor registry)),
    (6, field.length.parameter),
    (7, some (registry.toCbor field.direction.identifier)),
    (8, some (natural field.fieldPosition)),
    (9, field.target.toCbor),
    (12, some (registry.toCbor field.matching.identifier)),
    (13, field.matching.values),
    (16, some (registry.toCbor field.action.identifier))]

def Rule.toCbor (registry : SidRegistry) (rule : Rule) : CborValue :=
  record [(1, some (natural rule.id.bitLen)),
    (2, some (natural rule.id.value)),
    (3, if rule.nature = .compression then none else some (registry.toCbor rule.nature.identifier)),
    (23, some (.array (rule.fields.map (FieldRule.toCbor registry))))]

def RuleContext.toCbor (ctx : RuleContext) : CborValue :=
  record [(2574, some (record [(23, some (.array
    (ctx.rules.rules.map (Rule.toCbor ctx.rules.sidRegistry))))]))]

/- What can be written. -/

/-- The registry has an identifier that resolves to the field, or the field is an option and the
    registry has the space of options. -/
def FieldRef.Writable (registry : SidRegistry) (field : FieldRef) : Prop :=
  (∃ identifier, registry.Lists identifier ∧ fieldRef identifier 0 = field ∧
      ∀ sid, field ≠ .unknownSid sid) ∨
    ∃ number, number < 2 ^ 64 ∧ field = .coapOption number ∧ registry.Lists "space-id-coap"

structure FieldLength.Writable (registry : SidRegistry) (length : FieldLength) : Prop where
  function : ∀ function, length.function = some function → registry.Lists function
  fixed : ∀ bits, length = .fixedBits bits → bits < 2 ^ 64
  previous : ∀ entryIndex unit, length = .fromPreviousField entryIndex unit → entryIndex < 2 ^ 64
  other : ∀ sid, length = .functionSid sid → sid < 2 ^ 64 ∧
    ∀ function ∈ lengthFunctions, registry.identifier sid ≠ .ok function

/-- A mapping is written as a list of values, and a list of one value reads as a mapping only
    where the operator or the action asks for one. -/
def FieldRule.MappingWritable (field : FieldRule) : Prop :=
  ∀ values, field.target = .mapping values → values.length ≤ 2 ^ 64 ∧
    (field.matching = .matchMapping ∨ field.action = .mappingSent ∨ 2 ≤ values.length)

structure FieldRule.Writable (registry : SidRegistry) (entry : FieldRule) : Prop where
  valid : entry.Valid
  index : entry.entryIndex < 2 ^ 64
  position : entry.fieldPosition < 2 ^ 64
  field : entry.field.Writable registry
  length : entry.length.Writable registry
  direction : registry.Lists entry.direction.identifier
  matching : registry.Lists entry.matching.identifier
  bits : ∀ bits, entry.matching = .msb bits → bits < 2 ^ 64
  action : registry.Lists entry.action.identifier
  mapping : entry.MappingWritable

/-- The registry has the identifier of the nature under a SID that does not stand for the
    default. -/
def RuleNature.Writable (registry : SidRegistry) (nature : RuleNature) : Prop :=
  nature ≠ .compression → ∃ sid, registry.number nature.identifier = some sid ∧ sid ≠ 0

structure Rule.Writable (registry : SidRegistry) (rule : Rule) : Prop where
  id : rule.id.Fits
  nature : rule.nature.Writable registry
  sorted : rule.fields.Pairwise (fun a b => a.entryIndex < b.entryIndex)
  fields : ∀ field ∈ rule.fields, field.Writable registry

structure RuleContext.Writable (ctx : RuleContext) : Prop where
  rules : ∀ rule ∈ ctx.rules.rules, rule.Writable ctx.rules.sidRegistry
  prefixFree : PrefixCode.PrefixFree (ctx.rules.rules.map (fun rule => rule.id.bits))

/- Maps and numbers. -/

theorem SidRegistry.number_eq_some {registry : SidRegistry} {identifier : String} {sid : Nat} :
    registry.number identifier = some sid ↔ registry.sid identifier = .ok sid ∧ sid < 2 ^ 64 := by
  unfold SidRegistry.number
  cases registry.sid identifier with
  | error halt => simp [Except.toOption]
  | ok number =>
    simp only [Except.toOption, Option.filter_eq_some_iff, Option.some.injEq, decide_eq_true_eq,
      Except.ok.injEq]

/-- What a SID of 64 bits stands for is listed. -/
theorem SidRegistry.Paired.lists {registry : SidRegistry} (paired : registry.Paired) {sid : Nat}
    (small : sid < 2 ^ 64) {identifier : String}
    (found : registry.identifier sid = .ok identifier) : registry.number identifier = some sid :=
  number_eq_some.mpr ⟨(paired.sid_iff_identifier identifier sid).mpr found, small⟩

theorem mapValue_record_nil (key : Int) : mapValue (record []) key = none := rfl

theorem mapValue_record_cons (key place : Int) (value : Option CborValue)
    (fields : List (Int × Option CborValue)) :
    mapValue (record ((place, value) :: fields)) key =
      if place = key then value.or (mapValue (record fields) key)
      else mapValue (record fields) key := by
  cases value with
  | none => simp [record]
  | some value =>
    by_cases same : place = key
    · simp [record, mapValue, integerKey, same]
    · simp [record, mapValue, integerKey, same]

theorem valueToU64_natural {n : Nat} (small : n < 2 ^ 64) : valueToU64 (natural n) = .ok n := by
  unfold natural valueToU64
  dsimp only
  rw [if_pos ⟨Int.natCast_nonneg n, by exact_mod_cast small⟩, Int.toNat_natCast]

theorem valueToU64_lt {value : CborValue} {n : Nat} (read : valueToU64 value = .ok n) :
    n < 2 ^ 64 := by
  cases value with
  | integer integer =>
    rw [valueToU64] at read
    split at read
    · cases read
      omega
    · cases read
  | _ => cases read

section
variable {registry : SidRegistry} {ruleIndex order : Nat}

theorem SidRegistry.Lists.read {identifier : String} (lists : registry.Lists identifier) (paired : registry.Paired) :
    ∃ sid, valueToU64 (registry.toCbor identifier) = .ok sid ∧
      registry.identifier sid = .ok identifier := by
  obtain ⟨sid, listed⟩ := Option.isSome_iff_exists.mp lists
  obtain ⟨named, small⟩ := number_eq_some.mp listed
  refine ⟨sid, ?_, (paired.sid_iff_identifier identifier sid).mp named⟩
  rw [SidRegistry.toCbor, listed]
  exact valueToU64_natural small

theorem lists_of_found (paired : registry.Paired) {sid : Nat} (small : sid < 2 ^ 64)
    {identifier : String} (found : registry.identifier sid = .ok identifier) :
    registry.Lists identifier := by
  rw [SidRegistry.Lists, paired.lists small found]
  rfl

theorem requiredFieldInteger_lt {type : String} {value : CborValue} {key : Int} {n : Nat}
    (read : requiredFieldInteger type value key ruleIndex order = .ok n) : n < 2 ^ 64 := by
  obtain ⟨found, -, counted⟩ := requiredFieldInteger_eq_ok.mp read
  exact valueToU64_lt counted

theorem requiredFieldInteger_natural {type : String} {value : CborValue} {key : Int} {n : Nat}
    (there : mapValue value key = some (natural n)) (small : n < 2 ^ 64) :
    requiredFieldInteger type value key ruleIndex order = .ok n :=
  requiredFieldInteger_eq_ok.mpr ⟨_, there, valueToU64_natural small⟩

theorem requiredFieldU64_toCbor (paired : registry.Paired) {value : CborValue} {key : Int}
    {identifier : String} (lists : registry.Lists identifier)
    (there : mapValue value key = some (registry.toCbor identifier)) :
    ∃ sid, requiredFieldU64 value key ruleIndex order = .ok sid ∧
      registry.identifier sid = .ok identifier := by
  obtain ⟨sid, read, same⟩ := lists.read paired
  exact ⟨sid, requiredFieldInteger_eq_ok.mpr ⟨_, there, read⟩, same⟩

theorem sidIdentifier_eq_ok {kind identifier : String} {sid : Nat} :
    sidIdentifier registry ruleIndex order kind sid = .ok identifier ↔
      registry.identifier sid = .ok identifier := by
  unfold sidIdentifier
  cases registry.identifier sid <;> simp

theorem cborDirectionSelector_eq_ok {sid : Nat} {direction : DirectionSelector} :
    cborDirectionSelector registry ruleIndex order sid = .ok direction ↔
      registry.identifier sid = .ok direction.identifier := by
  rw [cborDirectionSelector, bind_eq_ok]
  simp only [sidIdentifier_eq_ok]
  constructor
  · rintro ⟨identifier, found, chosen⟩
    rw [found]
    split_ifs at chosen with bidirectional up down
    · cases chosen
      rw [bidirectional]
      rfl
    · cases chosen
      rw [up]
      rfl
    · cases chosen
      rw [down]
      rfl
    · cases chosen
  · intro found
    refine ⟨_, found, ?_⟩
    cases direction <;> rfl

theorem cborCda_eq_ok {sid : Nat} {action : Cda} :
    cborCda registry ruleIndex order sid = .ok action ↔
      registry.identifier sid = .ok action.identifier := by
  rw [cborCda, bind_eq_ok]
  simp only [sidIdentifier_eq_ok]
  constructor
  · rintro ⟨identifier, found, chosen⟩
    rw [found]
    split_ifs at chosen with notSent valueSent mappingSent lsb compute deviid appiid
    all_goals cases chosen
    all_goals simp only [Cda.identifier, *]
  · intro found
    refine ⟨_, found, ?_⟩
    cases action <;> rfl

/- Value lists. -/

theorem readListed_record {i : Nat} (small : i < 2 ^ 64) (bytes : List UInt8) :
    readListed (record [(1, some (natural i)), (2, some (.bytes bytes))]) =
      some (i, .bytes bytes) := by
  have read := valueToU64_natural small
  have index : mapValue (record [(1, some (natural i)), (2, some (.bytes bytes))]) 1 =
      some (natural i) := by
    simp [mapValue_record_cons]
  have value : mapValue (record [(1, some (natural i)), (2, some (.bytes bytes))]) 2 =
      some (.bytes bytes) := by
    simp [mapValue_record_cons]
  rw [readListed, index, value]
  dsimp only
  rw [read]
  rfl

theorem listToCbor_entries {values : List (List UInt8)} (short : values.length ≤ 2 ^ 64) :
    ∃ items, listToCbor values = .array items ∧
      ByIndex items (values.mapIdx fun i bytes => (i, .bytes bytes)) := by
  refine ⟨_, rfl, ?_⟩
  have consecutive : (values.mapIdx fun i bytes => (i, CborValue.bytes bytes)).map Prod.fst =
      List.range (values.mapIdx fun i bytes => (i, CborValue.bytes bytes)).length := by
    apply List.ext_getElem
    · simp
    · intro i _ _
      simp
  refine ⟨⟨sorted_of_consecutive consecutive, ?_⟩, consecutive⟩
  apply List.Perm.of_eq
  apply List.ext_getElem
  · simp
  · intro i inside _
    rw [List.length_map, List.length_mapIdx] at inside
    simp only [List.getElem_map, List.getElem_mapIdx]
    exact readListed_record (by omega) _

theorem listed_bytes {entries : List (Nat × CborValue)} {values : List (List UInt8)}
    (same : entries.map Prod.snd = values.map CborValue.bytes) :
    entries.mapM (fun entry => valueToBytes ruleIndex order entry.2) = .ok values := by
  induction entries generalizing values with
  | nil =>
    rw [List.map_nil] at same
    rw [List.map_eq_nil_iff.mp same.symm]
    rfl
  | cons entry entries ih =>
    cases values with
    | nil => cases same
    | cons bytes values =>
      rw [List.map_cons, List.map_cons, List.cons.injEq] at same
      rw [List.mapM_cons, ih same.2, same.1]
      rfl

variable (ruleIndex order) in
theorem listToCbor_read {values : List (List UInt8)} (short : values.length ≤ 2 ^ 64) :
    (cborTargetEntries ruleIndex order (listToCbor values) >>= fun entries =>
      entries.mapM (fun entry => valueToBytes ruleIndex order entry.2)) = .ok values := by
  obtain ⟨items, whole, listed⟩ := listToCbor_entries short
  rw [whole, cborTargetEntries_eq_ok.mpr listed, ok_bind]
  apply listed_bytes
  apply List.ext_getElem
  · simp
  · intro i _ _
    simp

/-- A list has no more values than its indexes can count. -/
theorem targetEntries_short {list : CborValue} {out : List (Nat × CborValue)}
    (read : cborTargetEntries ruleIndex order list = .ok out) : out.length ≤ 2 ^ 64 := by
  cases list with
  | array items =>
    obtain ⟨⟨-, perm⟩, consecutive⟩ := cborTargetEntries_eq_ok.mp read
    by_contra long
    have last : 2 ^ 64 ∈ out.map Prod.fst := by
      rw [consecutive, List.mem_range]
      omega
    obtain ⟨entry, member, index⟩ := List.mem_map.mp last
    have found : some entry ∈ items.map readListed :=
      perm.mem_iff.mpr (List.mem_map_of_mem member)
    obtain ⟨item, -, found⟩ := List.mem_map.mp found
    have placed : requiredFieldUsize item 1 ruleIndex order = .ok entry.1 :=
      (readListed_eq_some.mp found).1
    obtain ⟨place, -, small⟩ := requiredFieldInteger_eq_ok.mp placed
    have bound := valueToU64_lt small
    omega
  | _ => cases read

/- Targets, operators and lengths. -/

/-- What a list of values is taken for. -/
def listedTarget (matching : MatchingOperator) (action : Cda) : List (List UInt8) → TargetValue
  | [] => .none
  | first :: rest =>
      if matching = .matchMapping ∨ action = .mappingSent then .mapping (first :: rest)
      else if rest = [] then .bytes first
      else .mapping (first :: rest)

theorem cborTargetValue_list {values : List (List UInt8)} (short : values.length ≤ 2 ^ 64)
    (matching : MatchingOperator) (action : Cda) :
    cborTargetValue (some (listToCbor values)) matching action ruleIndex order =
      .ok (listedTarget matching action values) := by
  obtain ⟨entries, listed, valued⟩ :=
    (bind_eq_ok _ _ _).mp (listToCbor_read ruleIndex order short)
  obtain ⟨items, whole, -⟩ := listToCbor_entries short
  rw [whole] at listed ⊢
  unfold cborTargetValue
  dsimp only
  rw [listed, ok_bind, valued, ok_bind]
  cases values with
  | nil => rfl
  | cons first rest =>
    dsimp only [listedTarget]
    split_ifs <;> rfl

theorem cborTargetValue_toCbor {target : TargetValue} {matching : MatchingOperator} {action : Cda}
    (single : target.isBytes → matching ≠ .matchMapping ∧ action ≠ .mappingSent)
    (mapped : ∀ values, target = .mapping values → values ≠ [] ∧ values.length ≤ 2 ^ 64 ∧
      (matching = .matchMapping ∨ action = .mappingSent ∨ 2 ≤ values.length)) :
    cborTargetValue target.toCbor matching action ruleIndex order = .ok target := by
  cases target with
  | none => rfl
  | bytes value =>
    have plain := single rfl
    rw [TargetValue.toCbor, cborTargetValue_list (by simp), listedTarget, if_neg (by simp [plain]),
      if_pos rfl]
  | mapping values =>
    obtain ⟨filled, short, asked⟩ := mapped values rfl
    rw [TargetValue.toCbor, cborTargetValue_list short]
    cases values with
    | nil => exact absurd rfl filled
    | cons first rest =>
      rw [listedTarget]
      by_cases listed : matching = .matchMapping ∨ action = .mappingSent
      · rw [if_pos listed]
      · have more : rest ≠ [] := by
          intro one
          subst one
          rcases asked with asked | asked | asked
          · exact listed (.inl asked)
          · exact listed (.inr asked)
          · simp at asked
        rw [if_neg listed, if_neg more]

theorem cborTargetValue_mapped {list : Option CborValue} {matching : MatchingOperator} {action : Cda}
    {values : List (List UInt8)}
    (read : cborTargetValue list matching action ruleIndex order = .ok (.mapping values)) :
    values.length ≤ 2 ^ 64 ∧
      (matching = .matchMapping ∨ action = .mappingSent ∨ 2 ≤ values.length) := by
  unfold cborTargetValue at read
  split at read
  · cases read
  · cases read
  · rename_i value other
    simp only [bind_eq_ok] at read
    obtain ⟨entries, listed, bytes, valued, chosen⟩ := read
    have count : bytes.length = entries.length := by
      have same := congrArg List.length (listedBytes_eq_ok valued)
      simpa using same.symm
    have short := targetEntries_short listed
    split at chosen
    · cases chosen
    · rename_i first rest
      split_ifs at chosen with asked one
      · cases chosen
        refine ⟨by omega, ?_⟩
        rcases asked with asked | asked
        · exact .inl asked
        · exact .inr (.inl asked)
      · cases chosen
      · cases chosen
        refine ⟨by omega, .inr (.inr ?_)⟩
        cases rest with
        | nil => exact absurd rfl one
        | cons second rest => simp

theorem bytesToUsize_lt {bytes : List UInt8} {n : Nat} (counted : bytesToUsize bytes = some n) :
    n < 2 ^ 64 := by
  unfold bytesToUsize at counted
  split_ifs at counted with long
  cases counted
  calc BigEndian.value bytes < 256 ^ bytes.length := BigEndian.value_lt bytes
    _ ≤ 256 ^ 8 := Nat.pow_le_pow_right (by decide) (by omega)
    _ = 2 ^ 64 := by norm_num

theorem cborMatchingOperator_named {sid : Nat} {list : Option CborValue}
    {matching : MatchingOperator}
    (read : cborMatchingOperator registry ruleIndex order sid list = .ok matching) :
    registry.identifier sid = .ok matching.identifier ∧
      ∀ bits, matching = .msb bits → bits < 2 ^ 64 := by
  unfold cborMatchingOperator at read
  rw [bind_eq_ok] at read
  simp only [sidIdentifier_eq_ok] at read
  obtain ⟨identifier, found, chosen⟩ := read
  rw [found]
  split_ifs at chosen with equal ignore mapping msb
  · cases chosen
    exact ⟨by rw [equal]; rfl, fun _ other => by cases other⟩
  · cases chosen
    exact ⟨by rw [ignore]; rfl, fun _ other => by cases other⟩
  · cases chosen
    exact ⟨by rw [mapping]; rfl, fun _ other => by cases other⟩
  · split at chosen
    · cases chosen
    · simp only [bind_eq_ok] at chosen
      obtain ⟨entries, -, chosen⟩ := chosen
      split at chosen
      · cases chosen
      · simp only [bind_eq_ok] at chosen
        obtain ⟨bytes, -, chosen⟩ := chosen
        split at chosen
        · rename_i bits counted
          cases chosen
          refine ⟨by rw [msb]; rfl, ?_⟩
          intro other same
          cases same
          exact bytesToUsize_lt counted
        · cases chosen
  · cases chosen

theorem cborMatchingOperator_toCbor {sid : Nat} {matching : MatchingOperator}
    (named : registry.identifier sid = .ok matching.identifier)
    (narrow : ∀ bits, matching = .msb bits → bits < 2 ^ 64) :
    cborMatchingOperator registry ruleIndex order sid matching.values = .ok matching := by
  unfold cborMatchingOperator
  rw [sidIdentifier_eq_ok.mpr named, ok_bind]
  cases matching with
  | equal => rfl
  | ignore => rfl
  | matchMapping => rfl
  | msb bits =>
    have small : bits < 256 ^ 8 := by
      have bound := narrow bits rfl
      norm_num at bound ⊢
      exact bound
    have one : ([BigEndian.toBytes 8 bits] : List (List UInt8)).length ≤ 2 ^ 64 := by simp
    obtain ⟨items, whole, listed⟩ := listToCbor_entries one
    have counted : bytesToUsize (BigEndian.toBytes 8 bits) = some bits := by
      rw [bytesToUsize, BigEndian.length_toBytes, if_neg (by decide),
        BigEndian.value_toBytes small]
    have entries : cborTargetEntries ruleIndex order (.array items) = .ok _ :=
      cborTargetEntries_eq_ok.mpr listed
    have values : (MatchingOperator.msb bits).values = some (.array items) := congrArg some whole
    rw [values]
    change (cborTargetEntries ruleIndex order (.array items) >>= _) = _
    rw [entries, ok_bind]
    change (Except.ok (BigEndian.toBytes 8 bits) >>= _) = _
    rw [ok_bind, counted]

theorem fieldLengthParameter_lt {parameter : Option CborValue} {n : Nat}
    (read : fieldLengthParameter parameter ruleIndex order = .ok n) : n < 2 ^ 64 := by
  unfold fieldLengthParameter at read
  split at read
  · cases read
  · rw [orElse_eq_ok (fun _ => invalidField_ne_ok _ _ _ _)] at read
    exact valueToU64_lt read
  · split at read
    · rename_i counted
      cases read
      exact bytesToUsize_lt counted
    · cases read
  · cases read

theorem fieldLengthParameter_natural {n : Nat} (small : n < 2 ^ 64) :
    fieldLengthParameter (some (natural n)) ruleIndex order = .ok n := by
  have read := valueToU64_natural small
  unfold fieldLengthParameter natural
  unfold natural at read
  dsimp only
  rw [read]
  rfl

/-- A length of a function of its own. -/
theorem FieldLength.Writable.of_function {length : FieldLength} {name : String}
    (own : length.function = some name) (listed : registry.Lists name)
    (previous : ∀ entryIndex unit, length = .fromPreviousField entryIndex unit →
      entryIndex < 2 ^ 64) : length.Writable registry := by
  refine ⟨?_, ?_, previous, ?_⟩
  · intro function same
    rw [own] at same
    cases same
    exact listed
  · rintro bits rfl
    cases own
  · rintro sid rfl
    cases own

theorem fieldLengthFunction_writable (paired : registry.Paired) {sid : Nat} (small : sid < 2 ^ 64)
    {parameter : Option CborValue} {length : FieldLength}
    (read : fieldLengthFunction registry ruleIndex order sid parameter = .ok length) :
    length.Writable registry := by
  have other : (∀ function ∈ lengthFunctions, registry.identifier sid ≠ .ok function) →
      FieldLength.Writable registry (.functionSid sid) := by
    intro apart
    refine ⟨fun _ same => (by cases same), fun _ same => (by cases same),
      fun _ _ same => (by cases same), ?_⟩
    intro number same
    cases same
    exact ⟨small, apart⟩
  unfold fieldLengthFunction at read
  split at read
  · rename_i missing
    cases read
    refine other fun function _ found => ?_
    rw [missing] at found
    cases found
  · rename_i identifier found
    have listed := lists_of_found paired small found
    split_ifs at read with token bytes bits previousBytes previousBits
    · cases read
      exact .of_function rfl (token ▸ listed) fun _ _ same => by cases same
    · cases read
      exact .of_function rfl (bytes ▸ listed) fun _ _ same => by cases same
    · cases read
      exact .of_function rfl (bits ▸ listed) fun _ _ same => by cases same
    · obtain ⟨entry, counted, done⟩ := (bind_eq_ok _ _ _).mp read
      cases done
      refine .of_function rfl (previousBytes ▸ listed) ?_
      intro entryIndex unit same
      cases same
      exact fieldLengthParameter_lt counted
    · obtain ⟨entry, counted, done⟩ := (bind_eq_ok _ _ _).mp read
      cases done
      refine .of_function rfl (previousBits ▸ listed) ?_
      intro entryIndex unit same
      cases same
      exact fieldLengthParameter_lt counted
    · cases read
      refine other fun function member same => ?_
      rw [found] at same
      cases same
      simp only [lengthFunctions, List.mem_cons, List.not_mem_nil, or_false] at member
      rcases member with rfl | rfl | rfl | rfl | rfl
      · exact token rfl
      · exact bytes rfl
      · exact bits rfl
      · exact previousBytes rfl
      · exact previousBits rfl

theorem cborFieldLength_writable (paired : registry.Paired) {value : CborValue} {key : Int}
    {parameter : Option CborValue} {length : FieldLength}
    (read : cborFieldLength registry value key parameter ruleIndex order = .ok length) :
    length.Writable registry := by
  unfold cborFieldLength at read
  obtain ⟨found, -, chosen⟩ := (bind_eq_ok _ _ _).mp read
  split at chosen
  · split at chosen
    · rename_i integer bits counted
      cases chosen
      refine ⟨fun _ same => (by cases same), ?_, fun _ _ same => (by cases same),
        fun _ same => (by cases same)⟩
      intro other same
      cases same
      exact valueToU64_lt counted
    · cases chosen
  · obtain ⟨sid, counted, named⟩ := (bind_eq_ok _ _ _).mp chosen
    rw [orElse_eq_ok (fun _ => invalidField_ne_ok _ _ _ _)] at counted
    exact fieldLengthFunction_writable paired (valueToU64_lt counted) named
  · cases chosen

theorem fieldLengthFunction_toCbor {sid : Nat} {length : FieldLength} {name : String}
    (writable : length.Writable registry) (own : length.function = some name)
    (found : registry.identifier sid = .ok name) :
    fieldLengthFunction registry ruleIndex order sid length.parameter = .ok length := by
  unfold fieldLengthFunction
  rw [found]
  cases length with
  | fixedBits bits => cases own
  | functionSid sid => cases own
  | variableBytes =>
    cases own
    rfl
  | variableBits =>
    cases own
    rfl
  | tokenLength =>
    cases own
    rfl
  | fromPreviousField entryIndex unit =>
    have counted : fieldLengthParameter (some (natural entryIndex)) ruleIndex order =
        .ok entryIndex := fieldLengthParameter_natural (writable.previous entryIndex unit rfl)
    cases unit with
    | bytes =>
      cases own
      change (fieldLengthParameter (some (natural entryIndex)) ruleIndex order >>= _) = _
      rw [counted, ok_bind]
    | bits =>
      cases own
      change (fieldLengthParameter (some (natural entryIndex)) ruleIndex order >>= _) = _
      rw [counted, ok_bind]

theorem cborFieldLength_integer {value : CborValue} {key integer : Int}
    {parameter : Option CborValue} {bits : Nat} (there : mapValue value key = some (.integer integer))
    (read : valueToU64 (.integer integer) = .ok bits) :
    cborFieldLength registry value key parameter ruleIndex order = .ok (.fixedBits bits) := by
  unfold cborFieldLength
  rw [requiredFieldValue_eq_ok.mpr there, ok_bind]
  dsimp only
  rw [read]

theorem cborFieldLength_toCbor (paired : registry.Paired) {value : CborValue} {key : Int}
    {length : FieldLength} (writable : length.Writable registry)
    (there : mapValue value key = some (length.toCbor registry)) :
    cborFieldLength registry value key length.parameter ruleIndex order = .ok length := by
  have tagged : ∀ {content : CborValue} {sid : Nat},
      length.toCbor registry = .tag 45 content → valueToU64 content = .ok sid →
      fieldLengthFunction registry ruleIndex order sid length.parameter = .ok length →
      cborFieldLength registry value key length.parameter ruleIndex order = .ok length := by
    intro content sid written read named
    unfold cborFieldLength
    rw [requiredFieldValue_eq_ok.mpr (written ▸ there), ok_bind]
    change (orElse (valueToU64 content) _ >>= _) = _
    rw [read]
    exact named
  cases own : length.function with
  | some name =>
    obtain ⟨sid, read, found⟩ := (writable.function name own).read paired
    refine tagged ?_ read (fieldLengthFunction_toCbor writable own found)
    unfold FieldLength.toCbor
    rw [own]
  | none =>
    cases length with
    | fixedBits bits =>
      exact cborFieldLength_integer there (valueToU64_natural (writable.fixed bits rfl))
    | functionSid sid =>
      obtain ⟨small, apart⟩ := writable.other sid rfl
      refine tagged rfl (valueToU64_natural small) ?_
      unfold fieldLengthFunction
      cases found : registry.identifier sid with
      | error halt => rfl
      | ok identifier =>
        have not : ∀ function ∈ lengthFunctions, identifier ≠ function := by
          intro function member same
          exact apart function member (by rw [found, same])
        simp only [lengthFunctions, List.forall_mem_cons] at not
        obtain ⟨token, bytes, bits, previousBytes, previousBits, -⟩ := not
        dsimp only
        rw [if_neg token, if_neg bytes, if_neg bits, if_neg previousBytes, if_neg previousBits]
    | variableBytes => cases own
    | variableBits => cases own
    | tokenLength => cases own
    | fromPreviousField entryIndex unit => cases unit <;> cases own

/- Fields. -/

theorem fieldRef_known {identifier : String} {field : FieldRef}
    (known : ∀ sid, field ≠ .unknownSid sid) (sid : Nat) :
    fieldRef identifier sid = field ↔ fieldRef identifier 0 = field := by
  unfold fieldRef
  cases KnownName.all.find? (·.text = identifier) with
  | some name => cases name <;> rfl
  | none =>
    dsimp only
    split_ifs
    · rfl
    · rfl
    · rfl
    · rfl
    · rfl
    · constructor
      · intro same
        exact absurd same.symm (known sid)
      · intro same
        exact absurd same.symm (known 0)

theorem resolveSupportedFieldRef_eq_ok {identifier : String} {sid : Nat} {resolved field : FieldRef} :
    resolveSupportedFieldRef ruleIndex order identifier sid resolved = .ok field ↔
      resolved = field ∧ ∀ sid, field ≠ .unknownSid sid := by
  unfold resolveSupportedFieldRef
  split
  · rename_i number
    constructor
    · intro failed
      cases failed
    · rintro ⟨rfl, known⟩
      exact absurd rfl (known number)
  · rename_i known
    constructor
    · intro same
      cases same
      exact ⟨rfl, known⟩
    · rintro ⟨rfl, -⟩
      rfl

theorem identifier_of_fieldRef {identifier : String} {field : FieldRef}
    (same : fieldRef identifier 0 = field) (known : ∀ sid, field ≠ .unknownSid sid) :
    field.identifier = some identifier := by
  subst same
  unfold fieldRef at known ⊢
  cases found : KnownName.all.find? (·.text = identifier) with
  | some name =>
    have text : name.text = identifier := by simpa using List.find?_some found
    rw [← text]
    cases name <;> rfl
  | none =>
    rw [found] at known
    dsimp only at known ⊢
    split_ifs at known ⊢ with marker host path unused payload
    · rw [marker]
      rfl
    · rw [host]
      rfl
    · rw [path]
      rfl
    · rw [unused]
      rfl
    · rw [payload]
      rfl
    · exact absurd rfl (known 0)

theorem fieldRef_of_option {number : Nat} {identifier : String}
    (own : (FieldRef.coapOption number).identifier = some identifier) :
    fieldRef identifier 0 = .coapOption number := by
  by_cases host : number = 3
  · subst host
    cases own
    rfl
  · by_cases path : number = 11
    · subst path
      cases own
      rfl
    · simp [FieldRef.identifier] at own

/-- How a field is written: by its own identifier, or by its number in the space of options. -/
theorem FieldRef.Writable.written {field : FieldRef} (writable : field.Writable registry) :
    (∃ sid identifier, field.sid registry = some sid ∧ registry.number identifier = some sid ∧
        fieldRef identifier 0 = field ∧ ∀ sid, field ≠ .unknownSid sid) ∨
      field.sid registry = none ∧ ∃ number, number < 2 ^ 64 ∧ field = .coapOption number ∧
        registry.Lists "space-id-coap" := by
  rcases writable with ⟨identifier, lists, same, known⟩ | ⟨number, small, rfl, lists⟩
  · obtain ⟨sid, listed⟩ := Option.isSome_iff_exists.mp lists
    refine .inl ⟨sid, identifier, ?_, listed, same, known⟩
    rw [FieldRef.sid, identifier_of_fieldRef same known]
    exact listed
  · cases own : (FieldRef.coapOption number).sid registry with
    | none => exact .inr ⟨rfl, number, small, rfl, lists⟩
    | some sid =>
      obtain ⟨identifier, named, listed⟩ := Option.bind_eq_some_iff.mp own
      exact .inl ⟨sid, identifier, rfl, listed, fieldRef_of_option named, by simp⟩

/- Entries. -/

/-- What is read of an entry, key by key. -/
structure EntryReads (registry : SidRegistry) (ruleIndex order : Nat) (value : CborValue)
    (entry : FieldRule) : Prop where
  length : cborFieldLength registry value 5 (mapValue value 6) ruleIndex order = .ok entry.length
  direction : ∃ sid, requiredFieldU64 value 7 ruleIndex order = .ok sid ∧
    registry.identifier sid = .ok entry.direction.identifier
  position : requiredFieldUsize value 8 ruleIndex order = .ok entry.fieldPosition
  matching : ∃ sid, requiredFieldU64 value 12 ruleIndex order = .ok sid ∧
    cborMatchingOperator registry ruleIndex order sid (mapValue value 13) = .ok entry.matching
  action : ∃ sid, requiredFieldU64 value 16 ruleIndex order = .ok sid ∧
    registry.identifier sid = .ok entry.action.identifier
  target : cborTargetValue (mapValue value 9) entry.matching entry.action ruleIndex order =
    .ok entry.target
  valid : entry.Valid

theorem loadCborEntry_eq_ok {value : CborValue} {entryIndex : Nat} {field : FieldRef}
    {entry : FieldRule} :
    loadCborEntry registry ruleIndex order value entryIndex field = .ok entry ↔
      entry.entryIndex = entryIndex ∧ entry.field = field ∧
        EntryReads registry ruleIndex order value entry := by
  unfold loadCborEntry
  simp only [bind_eq_ok, cborDirectionSelector_eq_ok, cborCda_eq_ok]
  constructor
  · rintro ⟨length, measured, directionSid, directed, direction, named, position, placed,
      matchingSid, asked, matching, matched, actionSid, acted, action, told, target, aimed, ⟨⟩,
      checked, done⟩
    cases done
    exact ⟨rfl, rfl, measured, ⟨_, directed, named⟩, placed, ⟨_, asked, matched⟩, ⟨_, acted, told⟩,
      aimed, (validateFieldRule_eq_ok ruleIndex _).mp checked⟩
  · rintro ⟨rfl, rfl, reads⟩
    obtain ⟨directionSid, directed, named⟩ := reads.direction
    obtain ⟨matchingSid, asked, matched⟩ := reads.matching
    obtain ⟨actionSid, acted, told⟩ := reads.action
    exact ⟨_, reads.length, directionSid, directed, _, named, _, reads.position, matchingSid, asked,
      _, matched, actionSid, acted, _, told, _, reads.target, (),
      (validateFieldRule_eq_ok ruleIndex _).mpr reads.valid, rfl⟩

theorem EntryReads.writable {value : CborValue} {entry : FieldRule}
    (reads : EntryReads registry ruleIndex order value entry) (paired : registry.Paired)
    (index : entry.entryIndex < 2 ^ 64) (field : entry.field.Writable registry) :
    entry.Writable registry := by
  obtain ⟨directionSid, directed, named⟩ := reads.direction
  obtain ⟨matchingSid, asked, matched⟩ := reads.matching
  obtain ⟨actionSid, acted, told⟩ := reads.action
  obtain ⟨matching, bits⟩ := cborMatchingOperator_named matched
  refine ⟨reads.valid, index, requiredFieldInteger_lt reads.position, field,
    cborFieldLength_writable paired reads.length,
    lists_of_found paired (requiredFieldInteger_lt directed) named,
    lists_of_found paired (requiredFieldInteger_lt asked) matching, bits,
    lists_of_found paired (requiredFieldInteger_lt acted) told, ?_⟩
  intro values mapped
  have target := reads.target
  rw [mapped] at target
  exact cborTargetValue_mapped target

/-- An entry that loads can be written. -/
theorem loadCborField_writable (paired : registry.Paired) {value : CborValue} {entry : FieldRule}
    (loaded : loadCborField registry ruleIndex order value = .ok entry) : entry.Writable registry := by
  unfold loadCborField at loaded
  split at loaded
  · unfold loadCborCoreconfField at loaded
    simp only [bind_eq_ok, sidIdentifier_eq_ok, resolveSupportedFieldRef_eq_ok,
      loadCborEntry_eq_ok] at loaded
    obtain ⟨entryIndex, placed, sid, numbered, identifier, found, field, ⟨named, known⟩, rfl, rfl,
      reads⟩ := loaded
    refine reads.writable paired (requiredFieldInteger_lt placed) (.inl ⟨identifier, ?_, ?_, known⟩)
    · exact lists_of_found paired (requiredFieldInteger_lt numbered) found
    · exact (fieldRef_known known sid).mp named
  · unfold loadCborUniversalOptionField at loaded
    simp only [bind_eq_ok, sidIdentifier_eq_ok, reject_eq_ok (invalidField_ne_ok _ _ _),
      loadCborEntry_eq_ok] at loaded
    obtain ⟨entryIndex, placed, sid, numbered, space, found, coap, number, optioned, rfl, option,
      reads⟩ := loaded
    refine reads.writable paired (requiredFieldInteger_lt placed) (.inr ⟨number, ?_, option, ?_⟩)
    · exact requiredFieldInteger_lt optioned
    · rw [not_not.mp coap] at found
      exact lists_of_found paired (requiredFieldInteger_lt numbered) found
  · cases loaded

theorem FieldRule.Valid.filled {entry : FieldRule} (valid : entry.Valid)
    (asked : entry.matching = .matchMapping ∨ entry.action = .mappingSent) :
    entry.target.isFilledMapping := by
  rcases asked with asked | asked
  · exact valid.mappingMatching asked
  · exact valid.mappingSent asked

theorem cborTargetValue_entry {entry : FieldRule} (valid : entry.Valid)
    (writable : entry.MappingWritable) :
    cborTargetValue entry.target.toCbor entry.matching entry.action ruleIndex order =
      .ok entry.target := by
  apply cborTargetValue_toCbor
  · intro bytes
    have apart : ¬ (entry.matching = .matchMapping ∨ entry.action = .mappingSent) := by
      intro asked
      have filled := valid.filled asked
      cases target : entry.target <;> simp_all [TargetValue.isBytes, TargetValue.isFilledMapping]
    exact not_or.mp apart
  · intro values mapped
    obtain ⟨short, asked⟩ := writable values mapped
    refine ⟨?_, short, asked⟩
    rintro rfl
    rcases asked with asked | asked | asked
    · have filled := valid.filled (.inl asked)
      rw [mapped] at filled
      cases filled
    · have filled := valid.filled (.inr asked)
      rw [mapped] at filled
      cases filled
    · simp at asked

theorem entryReads_toCbor (paired : registry.Paired) {entry : FieldRule}
    (writable : entry.Writable registry) :
    EntryReads registry ruleIndex order (entry.toCbor registry) entry := by
  have parameter : mapValue (entry.toCbor registry) 6 = entry.length.parameter := by
    simp [FieldRule.toCbor, mapValue_record_cons, mapValue_record_nil]
  have values : mapValue (entry.toCbor registry) 13 = entry.matching.values := by
    simp [FieldRule.toCbor, mapValue_record_cons, mapValue_record_nil]
  have target : mapValue (entry.toCbor registry) 9 = entry.target.toCbor := by
    simp [FieldRule.toCbor, mapValue_record_cons, mapValue_record_nil]
  obtain ⟨matchingSid, asked, named⟩ : ∃ sid, requiredFieldU64 (entry.toCbor registry) 12 ruleIndex
      order = .ok sid ∧ registry.identifier sid = .ok entry.matching.identifier :=
    requiredFieldU64_toCbor paired writable.matching
      (by simp [FieldRule.toCbor, mapValue_record_cons])
  constructor
  · rw [parameter]
    exact cborFieldLength_toCbor paired writable.length
      (by simp [FieldRule.toCbor, mapValue_record_cons])
  · exact requiredFieldU64_toCbor paired writable.direction
      (by simp [FieldRule.toCbor, mapValue_record_cons])
  · exact requiredFieldInteger_natural (by simp [FieldRule.toCbor, mapValue_record_cons])
      writable.position
  · rw [values]
    exact ⟨matchingSid, asked, cborMatchingOperator_toCbor named writable.bits⟩
  · exact requiredFieldU64_toCbor paired writable.action
      (by simp [FieldRule.toCbor, mapValue_record_cons])
  · rw [target]
    exact cborTargetValue_entry writable.valid writable.mapping
  · exact writable.valid

/-- What can be written loads again. -/
theorem loadCborField_toCbor (paired : registry.Paired) {entry : FieldRule}
    (writable : entry.Writable registry) :
    loadCborField registry ruleIndex order (entry.toCbor registry) = .ok entry := by
  have reads : EntryReads registry ruleIndex order (entry.toCbor registry) entry :=
    entryReads_toCbor paired writable
  have field : mapValue (entry.toCbor registry) 2 = (entry.field.sid registry).map natural := by
    simp [FieldRule.toCbor, mapValue_record_cons, mapValue_record_nil]
  have space : mapValue (entry.toCbor registry) 3 =
      (entry.field.universal registry).map fun _ => registry.toCbor "space-id-coap" := by
    simp [FieldRule.toCbor, mapValue_record_cons, mapValue_record_nil]
  have option : mapValue (entry.toCbor registry) 4 = (entry.field.universal registry).map natural := by
    simp [FieldRule.toCbor, mapValue_record_cons, mapValue_record_nil]
  have index : requiredFieldUsize (entry.toCbor registry) 1 ruleIndex order = .ok entry.entryIndex :=
    requiredFieldInteger_natural (by simp [FieldRule.toCbor, mapValue_record_cons]) writable.index
  unfold loadCborField
  rw [field, space, option]
  rcases writable.field.written with ⟨sid, identifier, own, listed, same, known⟩ |
    ⟨none, number, small, optioned, lists⟩
  · have plain : entry.field.universal registry = none := by
      unfold FieldRef.universal
      rw [own]
    rw [own] at field ⊢
    rw [plain]
    obtain ⟨named, narrow⟩ := SidRegistry.number_eq_some.mp listed
    have found := (paired.sid_iff_identifier identifier sid).mp named
    change loadCborCoreconfField registry ruleIndex order (entry.toCbor registry) = _
    unfold loadCborCoreconfField
    have numbered : requiredFieldU64 (entry.toCbor registry) 2 ruleIndex order = .ok sid :=
      requiredFieldInteger_natural field narrow
    rw [index, ok_bind, numbered, ok_bind, sidIdentifier_eq_ok.mpr found, ok_bind,
      resolveSupportedFieldRef_eq_ok.mpr ⟨(fieldRef_known known sid).mpr same, known⟩, ok_bind]
    exact loadCborEntry_eq_ok.mpr ⟨rfl, rfl, reads⟩
  · have numberOf : entry.field.universal registry = some number := by
      unfold FieldRef.universal
      rw [none, optioned]
    rw [numberOf] at space option ⊢
    rw [none]
    change loadCborUniversalOptionField registry ruleIndex order (entry.toCbor registry) = _
    unfold loadCborUniversalOptionField
    obtain ⟨sid, spaced, found⟩ : ∃ sid, requiredFieldU64 (entry.toCbor registry) 3 ruleIndex order =
        .ok sid ∧ registry.identifier sid = .ok "space-id-coap" :=
      requiredFieldU64_toCbor paired lists space
    have numbered : requiredFieldU64 (entry.toCbor registry) 4 ruleIndex order = .ok number :=
      requiredFieldInteger_natural option small
    rw [index, ok_bind, spaced, ok_bind, sidIdentifier_eq_ok.mpr found, ok_bind,
      if_neg (not_not.mpr rfl), numbered, ok_bind]
    exact loadCborEntry_eq_ok.mpr ⟨rfl, optioned, reads⟩

/- Rules. -/

theorem cborRuleNature_writable (paired : registry.Paired) {value : CborValue} {nature : RuleNature}
    (read : cborRuleNature registry ruleIndex value = .ok nature) : nature.Writable registry := by
  intro other
  unfold cborRuleNature at read
  split at read
  · cases read
    exact absurd rfl other
  · obtain ⟨sid, counted, chosen⟩ := (bind_eq_ok _ _ _).mp read
    rw [orElse_eq_ok (fun _ => invalidRule_ne_ok _ _ _)] at counted
    have small := valueToU64_lt counted
    split_ifs at chosen with default
    · cases chosen
      exact absurd rfl other
    · obtain ⟨identifier, found, named⟩ := (bind_eq_ok _ _ _).mp chosen
      rw [sidIdentifier_eq_ok] at found
      refine ⟨sid, paired.lists small ?_, default⟩
      rw [found]
      split_ifs at named with compression noCompression fragmentation management
      · cases named
        exact absurd rfl other
      · cases named
        rw [noCompression]
        rfl
      · cases named
        rw [fragmentation]
        rfl
      · cases named
        rw [management]
        rfl
      · cases named

theorem cborRuleNature_toCbor (paired : registry.Paired) {value : CborValue} {nature : RuleNature}
    (writable : nature.Writable registry)
    (there : mapValue value 3 =
      if nature = .compression then none else some (registry.toCbor nature.identifier)) :
    cborRuleNature registry ruleIndex value = .ok nature := by
  unfold cborRuleNature
  rw [there]
  by_cases default : nature = .compression
  · rw [if_pos default, default]
  · obtain ⟨sid, listed, other⟩ := writable default
    obtain ⟨named, small⟩ := SidRegistry.number_eq_some.mp listed
    have found := (paired.sid_iff_identifier _ sid).mp named
    have read : valueToU64 (registry.toCbor nature.identifier) = .ok sid := by
      rw [SidRegistry.toCbor, listed]
      exact valueToU64_natural small
    rw [if_neg default]
    dsimp only
    rw [read]
    change (if sid = 0 then _ else _) = _
    rw [if_neg other, sidIdentifier_eq_ok.mpr found, ok_bind]
    cases nature <;> rfl

theorem loadCborRule_eq_ok {value : CborValue} {rule : Rule} :
    loadCborRule registry ruleIndex value = .ok rule ↔
      requiredU64 value 1 = .ok rule.id.bitLen ∧ requiredU64 value 2 = .ok rule.id.value ∧
        validateRuleId ruleIndex rule.id.value rule.id.bitLen = .ok () ∧
        cborRuleNature registry ruleIndex value = .ok rule.nature ∧
        ∃ values, cborEntryValues ruleIndex rule.nature value = .ok values ∧
          Reads (readEntry registry ruleIndex) FieldRule.entryIndex values rule.fields := by
  unfold loadCborRule
  simp only [← loadFields_eq_ok, bind_eq_ok, orElse_eq_ok (fun _ => invalidRule_ne_ok _ _ _)]
  constructor
  · rintro ⟨idLength, measured, id, valued, ⟨⟩, checked, nature, kind, values, listed, fields,
      loaded, sorted, ordered, done⟩
    cases done
    exact ⟨measured, valued, checked, kind, values, listed, fields, loaded, ordered⟩
  · rintro ⟨measured, valued, checked, kind, values, listed, fields, loaded, ordered⟩
    exact ⟨_, measured, _, valued, (), checked, _, kind, values, listed, fields, loaded, _, ordered,
      rfl⟩

theorem loadCborRule_writable (paired : registry.Paired) {value : CborValue} {rule : Rule}
    (loaded : loadCborRule registry ruleIndex value = .ok rule) : rule.Writable registry := by
  obtain ⟨-, -, -, kind, values, -, sorted, perm⟩ := loadCborRule_eq_ok.mp loaded
  refine ⟨(loadCborRule_valid loaded).id, cborRuleNature_writable paired kind, sorted, ?_⟩
  intro entry member
  have found : some entry ∈ values.map (readEntry registry ruleIndex) :=
    perm.mem_iff.mpr (List.mem_map_of_mem member)
  obtain ⟨value, -, read⟩ := List.mem_map.mp found
  exact loadCborField_writable paired (readEntry_eq_some.mp read)

theorem requiredU64_eq_ok {value : CborValue} {key : Int} {n : Nat} :
    requiredU64 value key = .ok n ↔
      ∃ found, mapValue value key = some found ∧ valueToU64 found = .ok n := by
  unfold requiredU64 requiredMapValue
  cases mapValue value key with
  | none =>
    constructor
    · intro failed
      cases failed
    · rintro ⟨found, there, -⟩
      cases there
  | some found =>
    constructor
    · intro read
      exact ⟨found, rfl, read⟩
    · rintro ⟨other, ⟨⟩, read⟩
      exact read

theorem requiredU64_natural {value : CborValue} {key : Int} {n : Nat}
    (there : mapValue value key = some (natural n)) (small : n < 2 ^ 64) :
    requiredU64 value key = .ok n :=
  requiredU64_eq_ok.mpr ⟨_, there, valueToU64_natural small⟩

theorem loadCborRule_toCbor (paired : registry.Paired) {rule : Rule}
    (writable : rule.Writable registry) :
    loadCborRule registry ruleIndex (rule.toCbor registry) = .ok rule := by
  have entries : mapValue (rule.toCbor registry) 23 =
      some (.array (rule.fields.map (FieldRule.toCbor registry))) := by
    simp [Rule.toCbor, mapValue_record_cons]
  have word : rule.id.value < 2 ^ 64 :=
    lt_of_lt_of_le writable.id.value (Nat.pow_le_pow_right (by decide) writable.id.narrow)
  refine loadCborRule_eq_ok.mpr ⟨?_, ?_, ?_, ?_, rule.fields.map (FieldRule.toCbor registry), ?_,
    writable.sorted, ?_⟩
  · have small : rule.id.bitLen < 2 ^ 64 := lt_of_le_of_lt writable.id.narrow (by norm_num)
    exact requiredU64_natural (by simp [Rule.toCbor, mapValue_record_cons]) small
  · exact requiredU64_natural (by simp [Rule.toCbor, mapValue_record_cons]) word
  · exact (validateRuleId_eq_ok ruleIndex rule.id word).mpr writable.id
  · apply cborRuleNature_toCbor paired writable.nature
    simp [Rule.toCbor, mapValue_record_cons, mapValue_record_nil]
  · unfold cborEntryValues
    rw [entries]
  · apply List.Perm.of_eq
    rw [List.map_map]
    apply List.map_congr_left
    intro entry member
    exact readEntry_eq_some.mpr (loadCborField_toCbor paired (writable.fields entry member))

end

/- Rule sets. -/

theorem loadCborRules_toCbor {registry : SidRegistry} (paired : registry.Paired) {rules : List Rule}
    (writable : ∀ rule ∈ rules, rule.Writable registry) (i : Nat) :
    mapIndexed (loadCborRule registry) i (rules.map (Rule.toCbor registry)) = .ok rules := by
  induction rules generalizing i with
  | nil => rfl
  | cons rule rules ih =>
    have later := ih (fun other member => writable other (List.mem_cons_of_mem _ member)) (i + 1)
    rw [List.map_cons, mapIndexed, loadCborRule_toCbor paired (writable rule List.mem_cons_self),
      ok_bind, later]
    rfl

theorem fromCbor_writable {items : List SidItem} {root : CborValue} {ctx : RuleContext}
    (loaded : RuleContext.fromCbor root (.ofItems items) = .ok ctx) :
    ctx.rules.sidRegistry = .ofItems items ∧ ctx.Writable := by
  have valid := (RuleContext.Loaded.cbor root _ loaded).valid
  unfold RuleContext.fromCbor at loaded
  simp only [bind_eq_ok] at loaded
  obtain ⟨envelope, -, values, -, rules, read, ⟨⟩, -, done⟩ := loaded
  cases done
  refine ⟨rfl, ?_, valid.prefixFree⟩
  intro rule member
  obtain ⟨i, value, -, loaded⟩ := mapIndexed_mem read member
  exact loadCborRule_writable (SidRegistry.Paired.ofItems items) loaded

theorem fromCbor_toCbor {items : List SidItem} {ctx : RuleContext}
    (own : ctx.rules.sidRegistry = .ofItems items) (writable : ctx.Writable) :
    RuleContext.fromCbor ctx.toCbor (.ofItems items) = .ok ctx := by
  have envelope : mapValue ctx.toCbor 2574 = some (record [(23, some (.array
      (ctx.rules.rules.map (Rule.toCbor ctx.rules.sidRegistry))))]) := by
    simp [RuleContext.toCbor, mapValue_record_cons]
  have rules : mapValue (record [(23, some (.array
      (ctx.rules.rules.map (Rule.toCbor ctx.rules.sidRegistry))))]) 23 =
      some (.array (ctx.rules.rules.map (Rule.toCbor ctx.rules.sidRegistry))) := by
    simp [mapValue_record_cons]
  have fits : ∀ rule ∈ ctx.rules.rules, rule.id.Fits :=
    fun rule member => (writable.rules rule member).id
  have read : mapIndexed (loadCborRule (.ofItems items)) 0
      (ctx.rules.rules.map (Rule.toCbor ctx.rules.sidRegistry)) = .ok ctx.rules.rules := by
    have each := writable.rules
    rw [own] at each ⊢
    exact loadCborRules_toCbor (SidRegistry.Paired.ofItems items) each 0
  have whole : RuleContext.mk ⟨ctx.rules.rules, .ofItems items⟩ = ctx := by rw [← own]
  unfold RuleContext.fromCbor
  simp only [bind_eq_ok]
  refine ⟨record [(23, some (.array (ctx.rules.rules.map (Rule.toCbor ctx.rules.sidRegistry))))], ?_,
    _, ?_, _, read, (), (validateRuleIdPrefixes_eq_ok fits).mpr writable.prefixFree,
    congrArg Except.ok whole⟩
  · rw [requiredMapValue_eq_ok.mpr envelope]
    rfl
  · unfold requiredArray
    rw [requiredMapValue_eq_ok.mpr rules]
    rfl

/-- The rule sets that a document can say: `ctx.toCbor` is one that says it. -/
theorem cbor_documents_iff (items : List SidItem) (ctx : RuleContext) :
    (RuleContext.fromCbor ctx.toCbor (.ofItems items) = .ok ctx ↔
      ctx.rules.sidRegistry = .ofItems items ∧ ctx.Writable) ∧
    ∀ root, RuleContext.fromCbor root (.ofItems items) = .ok ctx →
      ctx.rules.sidRegistry = .ofItems items ∧ ctx.Writable := by
  refine ⟨⟨fromCbor_writable, ?_⟩, fun root => fromCbor_writable⟩
  rintro ⟨own, writable⟩
  exact fromCbor_toCbor own writable

end SchcCore
