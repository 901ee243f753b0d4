import SchcCore.Rule.Written

/- What JSON rule files can say, and how the two kinds of documents compare. -/
namespace SchcCore
open Outcome Bytes

/- Numbers and hex strings. -/

def decimal (n : Nat) : List Char := Nat.toDigits 10 n

/-- Two digits a byte, the high half first. -/
def hexDigits (bytes : List UInt8) : List Char :=
  bytes.flatMap fun b => [Nat.digitChar (b.toNat / 16), Nat.digitChar (b.toNat % 16)]

def hexText (bytes : List UInt8) : String := String.ofList (hexDigits bytes)

theorem parseUnsigned_lt {text : List Char} {n : Nat} (read : parseUnsigned text = some n) :
    n < 2 ^ 64 := by
  unfold parseUnsigned at read
  dsimp only at read
  split_ifs at read with none small
  cases read
  exact small

/-- Without a sign the digits are the whole text. -/
theorem parseUnsigned_digits {text : List Char} (filled : text ≠ [])
    (digits : text.all Char.isDigit = true)
    (small : text.foldl (fun v c => v * 10 + (c.toNat - 48)) 0 < 2 ^ 64) :
    parseUnsigned text = some (text.foldl (fun v c => v * 10 + (c.toNat - 48)) 0) := by
  unfold parseUnsigned
  split
  · simp at digits
  · dsimp only
    rw [if_neg (by simp [filled, digits]), if_pos small]

theorem parseUnsigned_decimal {n : Nat} (small : n < 2 ^ 64) : parseUnsigned (decimal n) = some n := by
  have digits : (decimal n).all Char.isDigit = true := by
    rw [List.all_eq_true]
    intro c member
    exact Nat.isDigit_of_mem_toDigits (by decide) (by decide) member
  have value : (decimal n).foldl (fun v c => v * 10 + (c.toNat - 48)) 0 = n := by
    have whole : Nat.ofDigitChars 10 (Nat.toDigits 10 n) 0 = n := Nat.ofDigitChars_ten_toDigits
    rw [Nat.ofDigitChars_eq_foldl] at whole
    simpa [decimal, Nat.mul_comm] using whole
  have filled : decimal n ≠ [] := Nat.toDigits_ne_nil
  rw [parseUnsigned_digits filled digits (by rw [value]; exact small), value]

/-- The byte of a hex digit. -/
def hexByte (n : Nat) : UInt8 := UInt8.ofNat (Nat.digitChar n).toNat

theorem hexDigit_hexByte : ∀ n : Fin 16, hexDigit (hexByte n) = some (UInt8.ofNat n) := by
  decide

theorem utf8_digitChar : ∀ n : Fin 16, String.utf8EncodeChar (Nat.digitChar n) = [hexByte n] := by
  decide

theorem hexDigits_cons (b : UInt8) (bytes : List UInt8) :
    hexDigits (b :: bytes) =
      Nat.digitChar (b.toNat / 16) :: Nat.digitChar (b.toNat % 16) :: hexDigits bytes := rfl

theorem halves (b : UInt8) :
    ((UInt8.ofNat (b.toNat / 16) <<< 4) ||| UInt8.ofNat (b.toNat % 16)) = b := by
  revert b
  exact forall_byte (by decide +kernel)

/-- The bytes of a hex string. -/
def hexBytes (bytes : List UInt8) : List UInt8 :=
  bytes.flatMap fun b => [hexByte (b.toNat / 16), hexByte (b.toNat % 16)]

theorem length_hexBytes (bytes : List UInt8) : (hexBytes bytes).length = 2 * bytes.length := by
  induction bytes with
  | nil => rfl
  | cons b bytes ih =>
    have step : (hexBytes (b :: bytes)).length = (hexBytes bytes).length + 2 := rfl
    rw [step, ih, List.length_cons]
    omega

theorem hexPairs_hexBytes (bytes : List UInt8) : hexPairs (hexBytes bytes) = some bytes := by
  induction bytes with
  | nil => rfl
  | cons b bytes ih =>
    have bound := b.toNat_lt
    have high := hexDigit_hexByte ⟨b.toNat / 16, by omega⟩
    have low := hexDigit_hexByte ⟨b.toNat % 16, by omega⟩
    change (do
      let high ← hexDigit (hexByte (b.toNat / 16))
      let low ← hexDigit (hexByte (b.toNat % 16))
      let bytes ← hexPairs (hexBytes bytes)
      some (((high <<< 4) ||| low) :: bytes)) = _
    rw [high, low, ih]
    exact congrArg (fun b => some (b :: bytes)) (halves b)

theorem toUTF8_hexText (bytes : List UInt8) :
    (hexText bytes).toUTF8.data.toList = hexBytes bytes := by
  have encoded : (hexText bytes).toUTF8 = (hexDigits bytes).utf8Encode := by
    rw [String.toUTF8_eq_toByteArray, hexText, String.toByteArray_ofList]
  rw [encoded]
  clear encoded
  induction bytes with
  | nil => rfl
  | cons b bytes ih =>
    have bound := b.toNat_lt
    have high := utf8_digitChar ⟨b.toNat / 16, by omega⟩
    have low := utf8_digitChar ⟨b.toNat % 16, by omega⟩
    have pair : (hexDigits (b :: bytes)).utf8Encode =
        (String.utf8EncodeChar (Nat.digitChar (b.toNat / 16))).toByteArray ++
          ((String.utf8EncodeChar (Nat.digitChar (b.toNat % 16))).toByteArray ++
            (hexDigits bytes).utf8Encode) := by
      rw [hexDigits_cons, List.utf8Encode_cons, List.utf8Encode_singleton,
        @List.utf8Encode_cons (Nat.digitChar (b.toNat % 16)), List.utf8Encode_singleton]
    rw [pair, high, low]
    simp [ih, hexBytes]

theorem decodeHex_hexText (ruleIndex entryIndex : Nat) (bytes : List UInt8) :
    decodeHex ruleIndex entryIndex (hexText bytes) = .ok bytes := by
  unfold decodeHex
  dsimp only
  rw [toUTF8_hexText, length_hexBytes, if_neg (by omega), hexPairs_hexBytes]

/- Documents. -/

def DirectionSelector.text : DirectionSelector → String
  | .bidirectional => "bi"
  | .up => "up"
  | .down => "down"

def MatchingOperator.text : MatchingOperator → String
  | .equal => "equal"
  | .ignore => "ignore"
  | .msb bits => String.ofList ("msb(".toList ++ decimal bits ++ [')'])
  | .matchMapping => "match-mapping"

def Cda.text : Cda → String
  | .notSent => "not-sent"
  | .valueSent => "value-sent"
  | .mappingSent => "mapping-sent"
  | .lsb => "lsb"
  | .compute => "compute"
  | .deviceIid => "deviid"
  | .appIid => "appiid"

def FieldRef.text : FieldRef → String
  | .coapOption number => String.ofList ("coap-option(".toList ++ decimal number ++ [')'])
  | field => field.identifier.getD ""

def FieldLength.toJson : FieldLength → JsonLength
  | .fixedBits bits => .fixed bits
  | .variableBytes => .ofVariable .bytes
  | .variableBits => .ofVariable .bits
  | .tokenLength => .tokenLength
  | .fromPreviousField entryIndex .bytes => .fromPrevious entryIndex .bytes
  | .fromPreviousField entryIndex .bits => .fromPrevious entryIndex .bits
  | .functionSid sid => .functionSid sid

def TargetValue.toJson : TargetValue → JsonValue
  | .none => .null
  | .bytes value => .string (hexText value)
  | .mapping values => .array (values.map fun value => .string (hexText value))

def FieldRule.toJson (field : FieldRule) : JsonField :=
  ⟨field.field.text, none, some field.length.toJson, field.fieldPosition, field.direction.text,
    field.target.toJson, field.matching.text, field.action.text⟩

def Rule.toJson (rule : Rule) : JsonRule :=
  ⟨UInt64.ofNat rule.id.value, rule.id.bitLen, some rule.nature.asStr,
    rule.fields.map FieldRule.toJson⟩

def RuleContext.toJson (ctx : RuleContext) : RuleFile := ⟨ctx.rules.rules.map Rule.toJson⟩

/- What can be spelled. -/

def SidRegistry.Knows (registry : SidRegistry) (identifier : String) : Prop :=
  ∃ sid, registry.sid identifier = .ok sid

/-- An option is spelled by its number, another field by an identifier that the registry has. -/
def FieldRef.Spellable (registry : SidRegistry) (field : FieldRef) : Prop :=
  (∃ number, number < 2 ^ 64 ∧ field = .coapOption number) ∨
    ∃ identifier, registry.Knows identifier ∧ fieldRef identifier 0 = field ∧
      ∀ sid, field ≠ .unknownSid sid

structure FieldRule.Spellable (registry : SidRegistry) (entry : FieldRule) : Prop where
  valid : entry.Valid
  field : entry.field.Spellable registry
  direction : registry.Knows entry.direction.identifier
  matching : registry.Knows entry.matching.identifier
  bits : ∀ bits, entry.matching = .msb bits → bits < 2 ^ 64
  action : registry.Knows entry.action.identifier

structure Rule.Spellable (registry : SidRegistry) (rule : Rule) : Prop where
  id : rule.id.Fits
  places : ∀ k (h : k < rule.fields.length), rule.fields[k].entryIndex = k
  fields : ∀ field ∈ rule.fields, field.Spellable registry

structure RuleContext.Spellable (ctx : RuleContext) : Prop where
  rules : ∀ rule ∈ ctx.rules.rules, rule.Spellable ctx.rules.sidRegistry
  prefixFree : PrefixCode.PrefixFree (ctx.rules.rules.map (fun rule => rule.id.bits))

section
variable {registry : SidRegistry} {ruleIndex entryIndex : Nat}

theorem validateFieldIdentifier_eq_ok {kind identifier : String} {sid : Nat} :
    validateFieldIdentifier registry ruleIndex entryIndex kind identifier = .ok sid ↔
      registry.sid identifier = .ok sid := by
  unfold validateFieldIdentifier
  cases registry.sid identifier <;> simp

/-- The check that an identifier is known, before the value it stands for. -/
theorem known_eq_ok {α : Type} {kind identifier : String} {a b : α} :
    (validateFieldIdentifier registry ruleIndex entryIndex kind identifier >>= fun _ => .ok a) =
        .ok b ↔ registry.Knows identifier ∧ a = b := by
  simp only [bind_eq_ok, validateFieldIdentifier_eq_ok, Except.ok.injEq]
  constructor
  · rintro ⟨sid, found, same⟩
    exact ⟨⟨sid, found⟩, same⟩
  · rintro ⟨⟨sid, found⟩, same⟩
    exact ⟨sid, found, same⟩

theorem directionSelector_eq_ok {value : String} {direction : DirectionSelector} :
    directionSelector registry ruleIndex entryIndex value = .ok direction ↔
      value = direction.text ∧ registry.Knows direction.identifier := by
  unfold directionSelector
  constructor
  · intro read
    split_ifs at read with bidirectional up down
    · obtain ⟨known, rfl⟩ := known_eq_ok.mp read
      exact ⟨bidirectional, known⟩
    · obtain ⟨known, rfl⟩ := known_eq_ok.mp read
      exact ⟨up, known⟩
    · obtain ⟨known, rfl⟩ := known_eq_ok.mp read
      exact ⟨down, known⟩
    · cases read
  · rintro ⟨rfl, known⟩
    cases direction with
    | bidirectional => exact known_eq_ok.mpr ⟨known, rfl⟩
    | up => exact known_eq_ok.mpr ⟨known, rfl⟩
    | down => exact known_eq_ok.mpr ⟨known, rfl⟩

theorem cda_eq_ok {value : String} {action : Cda} :
    cda registry ruleIndex entryIndex value = .ok action ↔
      value = action.text ∧ registry.Knows action.identifier := by
  unfold cda
  constructor
  · intro read
    split_ifs at read with notSent valueSent mappingSent lsb compute deviid appiid
    · obtain ⟨known, rfl⟩ := known_eq_ok.mp read
      exact ⟨notSent, known⟩
    · obtain ⟨known, rfl⟩ := known_eq_ok.mp read
      exact ⟨valueSent, known⟩
    · obtain ⟨known, rfl⟩ := known_eq_ok.mp read
      exact ⟨mappingSent, known⟩
    · obtain ⟨known, rfl⟩ := known_eq_ok.mp read
      exact ⟨lsb, known⟩
    · obtain ⟨known, rfl⟩ := known_eq_ok.mp read
      exact ⟨compute, known⟩
    · obtain ⟨known, rfl⟩ := known_eq_ok.mp read
      exact ⟨deviid, known⟩
    · obtain ⟨known, rfl⟩ := known_eq_ok.mp read
      exact ⟨appiid, known⟩
    · cases read
  · rintro ⟨rfl, known⟩
    cases action with
    | notSent => exact known_eq_ok.mpr ⟨known, rfl⟩
    | valueSent => exact known_eq_ok.mpr ⟨known, rfl⟩
    | mappingSent => exact known_eq_ok.mpr ⟨known, rfl⟩
    | lsb => exact known_eq_ok.mpr ⟨known, rfl⟩
    | compute => exact known_eq_ok.mpr ⟨known, rfl⟩
    | deviceIid => exact known_eq_ok.mpr ⟨known, rfl⟩
    | appIid => exact known_eq_ok.mpr ⟨known, rfl⟩

theorem matchingOperator_known {value : String} {matching : MatchingOperator}
    (read : matchingOperator registry ruleIndex entryIndex value = .ok matching) :
    registry.Knows matching.identifier ∧ ∀ bits, matching = .msb bits → bits < 2 ^ 64 := by
  unfold matchingOperator at read
  split_ifs at read with equal ignore mapping
  · obtain ⟨known, rfl⟩ := known_eq_ok.mp read
    exact ⟨known, fun _ other => by cases other⟩
  · obtain ⟨known, rfl⟩ := known_eq_ok.mp read
    exact ⟨known, fun _ other => by cases other⟩
  · obtain ⟨known, rfl⟩ := known_eq_ok.mp read
    exact ⟨known, fun _ other => by cases other⟩
  · split at read
    · obtain ⟨sid, found, counted⟩ := (bind_eq_ok _ _ _).mp read
      split at counted
      · rename_i bits parsed
        cases counted
        refine ⟨⟨sid, validateFieldIdentifier_eq_ok.mp found⟩, ?_⟩
        intro other same
        cases same
        exact parseUnsigned_lt parsed
      · cases counted
    · cases read

theorem toList_msb (bits : Nat) :
    (MatchingOperator.msb bits).text.toList = "msb(".toList ++ decimal bits ++ [')'] :=
  String.toList_ofList

theorem matchingOperator_text {matching : MatchingOperator}
    (known : registry.Knows matching.identifier)
    (narrow : ∀ bits, matching = .msb bits → bits < 2 ^ 64) :
    matchingOperator registry ruleIndex entryIndex matching.text = .ok matching := by
  unfold matchingOperator
  cases matching with
  | equal => exact known_eq_ok.mpr ⟨known, rfl⟩
  | ignore => exact known_eq_ok.mpr ⟨known, rfl⟩
  | matchMapping => exact known_eq_ok.mpr ⟨known, rfl⟩
  | msb bits =>
    have spelled := toList_msb bits
    have other : ∀ word : String, word.toList.take 4 ≠ "msb(".toList →
        (MatchingOperator.msb bits).text ≠ word := by
      intro word apart same
      apply apart
      rw [← same, spelled]
      rfl
    have start : (MatchingOperator.msb bits).text.toList.dropPrefix? "msb(".toList =
        some (decimal bits ++ [')']) := by
      rw [spelled, List.append_assoc]
      exact List.dropPrefix?_append_of_beq _ (beq_self_eq_true _)
    have last : (MatchingOperator.msb bits).text.toList.getLast? = some ')' := by
      rw [spelled, List.getLast?_append]
      rfl
    obtain ⟨sid, found⟩ := known
    have checked : validateFieldIdentifier registry ruleIndex entryIndex "mo" "mo-msb" = .ok sid :=
      validateFieldIdentifier_eq_ok.mpr found
    rw [if_neg (other _ (by decide)), if_neg (other _ (by decide)), if_neg (other _ (by decide)),
      start, last]
    change (validateFieldIdentifier registry ruleIndex entryIndex "mo" "mo-msb" >>= _) = _
    rw [checked, ok_bind, List.dropLast_concat, parseUnsigned_decimal (narrow bits rfl)]

theorem mappingEntries_hexText (values : List (List UInt8)) :
    mappingEntries ruleIndex entryIndex (values.map fun value => .string (hexText value)) =
      .ok values := by
  induction values with
  | nil => rfl
  | cons value values ih =>
    rw [List.map_cons, mappingEntries, decodeHex_hexText, ok_bind, ih]
    rfl

theorem targetValue_toJson (target : TargetValue) :
    targetValue ruleIndex entryIndex target.toJson = .ok target := by
  cases target with
  | none => rfl
  | bytes value =>
    rw [TargetValue.toJson, targetValue, decodeHex_hexText]
    rfl
  | mapping values =>
    rw [TargetValue.toJson, targetValue, mappingEntries_hexText]
    rfl

theorem parseCoapOptionField_text {number : Nat} (small : number < 2 ^ 64) :
    parseCoapOptionField (FieldRef.coapOption number).text = some number := by
  have spelled : (FieldRef.coapOption number).text.toList =
      "coap-option(".toList ++ (decimal number ++ [')']) := by
    exact String.toList_ofList.trans (List.append_assoc ..)
  have start : (FieldRef.coapOption number).text.toList.dropPrefix? "coap-option(".toList =
      some (decimal number ++ [')']) := by
    rw [spelled]
    exact List.dropPrefix?_append_of_beq _ (beq_self_eq_true _)
  have ending : (decimal number ++ [')']).dropSuffix? [')'] = some (decimal number) :=
    List.dropSuffix?_eq_some_iff.mpr ⟨[')'], rfl, beq_self_eq_true _⟩
  unfold parseCoapOptionField
  rw [start]
  change ((decimal number ++ [')']).dropSuffix? [')'] >>= fun inner => parseUnsigned inner) = _
  rw [ending]
  exact parseUnsigned_decimal small

theorem parseCoapOptionField_lt {value : String} {number : Nat}
    (parsed : parseCoapOptionField value = some number) : number < 2 ^ 64 := by
  unfold parseCoapOptionField at parsed
  simp only [Option.bind_eq_bind, Option.bind_eq_some_iff] at parsed
  obtain ⟨inner, -, digits, -, read⟩ := parsed
  exact parseUnsigned_lt read

/-- An identifier of a field is not the number of an option. -/
theorem parseCoapOptionField_identifier {identifier : String} {field : FieldRef}
    (same : fieldRef identifier 0 = field) (known : ∀ sid, field ≠ .unknownSid sid) :
    parseCoapOptionField identifier = none := by
  have names : ∀ name ∈ KnownName.all, parseCoapOptionField name.text = none := by decide +kernel
  subst same
  unfold fieldRef at known
  cases found : KnownName.all.find? (·.text = identifier) with
  | some name =>
    have text : name.text = identifier := by simpa using List.find?_some found
    rw [← text]
    exact names name (List.mem_of_find?_eq_some found)
  | none =>
    rw [found] at known
    dsimp only at known
    split_ifs at known with marker host path unused payload
    · rw [marker]
      decide +kernel
    · rw [host]
      decide +kernel
    · rw [path]
      decide +kernel
    · rw [unused]
      decide +kernel
    · rw [payload]
      decide +kernel
    · exact absurd rfl (known 0)

theorem jsonFieldRef_spellable {identifier : String} {field : FieldRef}
    (read : jsonFieldRef registry ruleIndex entryIndex identifier = .ok field) :
    field.Spellable registry := by
  unfold jsonFieldRef at read
  split at read
  · rename_i number parsed
    cases read
    exact .inl ⟨number, parseCoapOptionField_lt parsed, rfl⟩
  · simp only [bind_eq_ok, validateFieldIdentifier_eq_ok, resolveSupportedFieldRef_eq_ok] at read
    obtain ⟨sid, found, named, known⟩ := read
    exact .inr ⟨identifier, ⟨sid, found⟩, (fieldRef_known known sid).mp named, known⟩

theorem option_small {number : Nat} {identifier : String}
    (own : (FieldRef.coapOption number).identifier = some identifier) : number < 2 ^ 64 := by
  by_cases host : number = 3
  · subst host
    norm_num
  · by_cases path : number = 11
    · subst path
      norm_num
    · simp [FieldRef.identifier] at own

theorem jsonFieldRef_text {field : FieldRef} (spellable : field.Spellable registry) :
    jsonFieldRef registry ruleIndex entryIndex field.text = .ok field := by
  have numbered : ∀ number, number < 2 ^ 64 → field = .coapOption number →
      jsonFieldRef registry ruleIndex entryIndex field.text = .ok field := by
    rintro number small rfl
    unfold jsonFieldRef
    rw [parseCoapOptionField_text small]
  rcases spellable with ⟨number, small, same⟩ | ⟨identifier, ⟨sid, found⟩, same, known⟩
  · exact numbered number small same
  · have own := identifier_of_fieldRef same known
    have spelled : (∃ number, field = .coapOption number) ∨ field.text = identifier := by
      cases field with
      | coapOption number => exact .inl ⟨number, rfl⟩
      | unknownSid number => exact absurd rfl (known number)
      | _ => exact .inr (Option.some.inj own)
    rcases spelled with ⟨number, rfl⟩ | spelled
    · exact numbered number (option_small own) rfl
    · unfold jsonFieldRef
      rw [spelled, parseCoapOptionField_identifier same known]
      dsimp only
      rw [validateFieldIdentifier_eq_ok.mpr found, ok_bind, resolveSupportedFieldRef_eq_ok]
      exact ⟨(fieldRef_known known sid).mpr same, known⟩

theorem jsonFieldLength_toJson (field : FieldRule) :
    jsonFieldLength ruleIndex entryIndex field.toJson = .ok field.length := by
  unfold jsonFieldLength FieldRule.toJson
  cases field.length with
  | fromPreviousField entry unit => cases unit <;> rfl
  | _ => rfl

theorem loadField_spellable {json : JsonField} {entry : FieldRule}
    (loaded : loadField registry ruleIndex entryIndex json = .ok entry) :
    entry.Spellable registry := by
  have valid := (loadField_valid loaded).1
  unfold loadField at loaded
  simp only [bind_eq_ok, directionSelector_eq_ok, cda_eq_ok] at loaded
  obtain ⟨field, named, length, -, direction, ⟨-, directed⟩, target, -, matching, asked, action,
    ⟨-, told⟩, ⟨⟩, -, done⟩ := loaded
  cases done
  obtain ⟨known, bits⟩ := matchingOperator_known asked
  exact ⟨valid, jsonFieldRef_spellable named, directed, known, bits, told⟩

theorem loadField_toJson {entry : FieldRule} (spellable : entry.Spellable registry) :
    loadField registry ruleIndex entry.entryIndex entry.toJson = .ok entry := by
  unfold loadField
  simp only [bind_eq_ok, directionSelector_eq_ok, cda_eq_ok]
  exact ⟨_, jsonFieldRef_text spellable.field, _, jsonFieldLength_toJson entry, _,
    ⟨rfl, spellable.direction⟩, _, targetValue_toJson entry.target, _,
    matchingOperator_text spellable.matching spellable.bits, _, ⟨rfl, spellable.action⟩, (),
    (validateFieldRule_eq_ok ruleIndex entry).mpr spellable.valid, rfl⟩

theorem parseNature_asStr (nature : RuleNature) :
    parseNature ruleIndex (some nature.asStr) = .ok nature := by
  cases nature <;> rfl

theorem loadFields_toJson {fields : List FieldRule} {first : Nat}
    (places : ∀ k (h : k < fields.length), fields[k].entryIndex = first + k)
    (spellable : ∀ field ∈ fields, field.Spellable registry) :
    mapIndexed (loadField registry ruleIndex) first (fields.map FieldRule.toJson) = .ok fields := by
  induction fields generalizing first with
  | nil => rfl
  | cons field fields ih =>
    have here : loadField registry ruleIndex first field.toJson = .ok field := by
      have placed := places 0 (by simp)
      rw [List.getElem_cons_zero, Nat.add_zero] at placed
      rw [← placed]
      exact loadField_toJson (spellable field List.mem_cons_self)
    have behind : ∀ k (h : k < fields.length), fields[k].entryIndex = first + 1 + k := by
      intro k h
      have placed := places (k + 1) (by simpa using h)
      rw [List.getElem_cons_succ] at placed
      omega
    have later := ih behind fun other member => spellable other (List.mem_cons_of_mem _ member)
    rw [List.map_cons, mapIndexed, here, ok_bind, later]
    rfl

theorem loadJsonRule_spellable {json : JsonRule} {rule : Rule}
    (loaded : loadJsonRule registry ruleIndex json = .ok rule) : rule.Spellable registry := by
  refine ⟨(loadJsonRule_valid loaded).id, loadJsonRule_entryIndex loaded, ?_⟩
  unfold loadJsonRule at loaded
  simp only [bind_eq_ok] at loaded
  obtain ⟨⟨⟩, -, fields, read, nature, -, done⟩ := loaded
  cases done
  intro entry member
  obtain ⟨place, json, -, found⟩ := mapIndexed_mem read member
  exact loadField_spellable found

theorem loadJsonRule_toJson {rule : Rule} (spellable : rule.Spellable registry) :
    loadJsonRule registry ruleIndex rule.toJson = .ok rule := by
  have word : rule.id.value < 2 ^ 64 :=
    lt_of_lt_of_le spellable.id.value (Nat.pow_le_pow_right (by decide) spellable.id.narrow)
  have value : (UInt64.ofNat rule.id.value).toNat = rule.id.value := by
    rw [UInt64.toNat_ofNat']
    exact Nat.mod_eq_of_lt word
  have fields : mapIndexed (loadField registry ruleIndex) 0 (rule.fields.map FieldRule.toJson) =
      .ok rule.fields :=
    loadFields_toJson (fun k h => by rw [spellable.places k h, Nat.zero_add]) spellable.fields
  unfold loadJsonRule Rule.toJson
  dsimp only
  rw [value, (validateRuleId_eq_ok ruleIndex rule.id word).mpr spellable.id, ok_bind, fields, ok_bind,
    parseNature_asStr]
  rfl

end

theorem loadJsonRules_toJson {registry : SidRegistry} {rules : List Rule}
    (spellable : ∀ rule ∈ rules, rule.Spellable registry) (i : Nat) :
    mapIndexed (loadJsonRule registry) i (rules.map Rule.toJson) = .ok rules := by
  induction rules generalizing i with
  | nil => rfl
  | cons rule rules ih =>
    have later := ih (fun other member => spellable other (List.mem_cons_of_mem _ member)) (i + 1)
    rw [List.map_cons, mapIndexed, loadJsonRule_toJson (spellable rule List.mem_cons_self), ok_bind,
      later]
    rfl

theorem fromJson_spellable {registry : SidRegistry} {file : RuleFile} {ctx : RuleContext}
    (loaded : RuleContext.fromJson file registry = .ok ctx) :
    ctx.rules.sidRegistry = registry ∧ ctx.Spellable := by
  have valid := (RuleContext.Loaded.json file _ loaded).valid
  unfold RuleContext.fromJson at loaded
  simp only [bind_eq_ok] at loaded
  obtain ⟨rules, read, ⟨⟩, -, done⟩ := loaded
  cases done
  refine ⟨rfl, ?_, valid.prefixFree⟩
  intro rule member
  obtain ⟨i, json, -, loaded⟩ := mapIndexed_mem read member
  exact loadJsonRule_spellable loaded

theorem fromJson_toJson {ctx : RuleContext} (spellable : ctx.Spellable) :
    RuleContext.fromJson ctx.toJson ctx.rules.sidRegistry = .ok ctx := by
  have fits : ∀ rule ∈ ctx.rules.rules, rule.id.Fits :=
    fun rule member => (spellable.rules rule member).id
  unfold RuleContext.fromJson
  simp only [bind_eq_ok]
  exact ⟨_, loadJsonRules_toJson spellable.rules 0, (),
    (validateRuleIdPrefixes_eq_ok fits).mpr spellable.prefixFree, rfl⟩

/-- The rule sets that a rule file can say: `ctx.toJson` is one that says it. -/
theorem json_documents_iff (registry : SidRegistry) (ctx : RuleContext) :
    (RuleContext.fromJson ctx.toJson registry = .ok ctx ↔
      ctx.rules.sidRegistry = registry ∧ ctx.Spellable) ∧
    ∀ file, RuleContext.fromJson file registry = .ok ctx →
      ctx.rules.sidRegistry = registry ∧ ctx.Spellable := by
  refine ⟨⟨fromJson_spellable, ?_⟩, fun file => fromJson_spellable⟩
  rintro ⟨rfl, spellable⟩
  exact fromJson_toJson spellable

/- Files and documents. -/

theorem SidRegistry.holds_ofItems {items : List SidItem} {item : SidItem}
    (holds : (ofItems items).Holds item) : item ∈ items := by
  induction items using List.reverseRecOn with
  | nil => cases holds.1
  | append_singleton earlier last ih =>
    rw [SidRegistry.ofItems, List.foldl_append] at holds
    rcases (holds_insert_iff (Paired.ofItems earlier) last item).mp holds with rfl | ⟨holds, -⟩
    · exact List.mem_append_right _ List.mem_cons_self
    · exact List.mem_append_left _ (ih holds)

theorem SidRegistry.lists_iff_knows {items : List SidItem}
    (narrow : ∀ item ∈ items, item.sid < 2 ^ 64) (identifier : String) :
    (ofItems items).Lists identifier ↔ (ofItems items).Knows identifier := by
  rw [Lists, Option.isSome_iff_exists]
  constructor
  · rintro ⟨sid, listed⟩
    exact ⟨sid, (number_eq_some.mp listed).1⟩
  · rintro ⟨sid, found⟩
    refine ⟨sid, number_eq_some.mpr ⟨found, ?_⟩⟩
    obtain ⟨item, named, rfl⟩ := sid_eq_ok.mp found
    exact narrow item (holds_ofItems ((Paired.ofItems items).holds named).2)

/-- What a rule file may leave open and a CBOR document has to settle: numbers of 64 bits, an
    identifier for an option and for a length function, and a mapping that reads as one. -/
structure FieldRule.Carried (registry : SidRegistry) (entry : FieldRule) : Prop where
  index : entry.entryIndex < 2 ^ 64
  position : entry.fieldPosition < 2 ^ 64
  option : ∀ number, entry.field = .coapOption number → entry.field.Writable registry
  length : entry.length.Writable registry
  mapping : entry.MappingWritable

theorem FieldRule.writable_iff {items : List SidItem} (narrow : ∀ item ∈ items, item.sid < 2 ^ 64)
    {entry : FieldRule} (spellable : entry.Spellable (.ofItems items)) :
    entry.Writable (.ofItems items) ↔ entry.Carried (.ofItems items) := by
  constructor
  · intro writable
    exact ⟨writable.index, writable.position, fun _ _ => writable.field, writable.length,
      writable.mapping⟩
  · intro carried
    have field : entry.field.Writable (.ofItems items) := by
      rcases spellable.field with ⟨number, -, same⟩ | ⟨identifier, knows, same, known⟩
      · exact carried.option number same
      · exact .inl ⟨identifier, (SidRegistry.lists_iff_knows narrow _).mpr knows, same, known⟩
    exact ⟨spellable.valid, carried.index, carried.position, field, carried.length,
      (SidRegistry.lists_iff_knows narrow _).mpr spellable.direction,
      (SidRegistry.lists_iff_knows narrow _).mpr spellable.matching, spellable.bits,
      (SidRegistry.lists_iff_knows narrow _).mpr spellable.action, carried.mapping⟩

theorem FieldRule.Writable.spellable {items : List SidItem}
    (narrow : ∀ item ∈ items, item.sid < 2 ^ 64) {entry : FieldRule}
    (writable : entry.Writable (.ofItems items)) : entry.Spellable (.ofItems items) := by
  have field : entry.field.Spellable (.ofItems items) := by
    rcases writable.field with ⟨identifier, lists, same, known⟩ | ⟨number, small, same, -⟩
    · exact .inr ⟨identifier, (SidRegistry.lists_iff_knows narrow _).mp lists, same, known⟩
    · exact .inl ⟨number, small, same⟩
  exact ⟨writable.valid, field, (SidRegistry.lists_iff_knows narrow _).mp writable.direction,
    (SidRegistry.lists_iff_knows narrow _).mp writable.matching, writable.bits,
    (SidRegistry.lists_iff_knows narrow _).mp writable.action⟩

theorem Rule.Spellable.sorted {registry : SidRegistry} {rule : Rule}
    (spellable : rule.Spellable registry) :
    rule.fields.Pairwise (fun a b => a.entryIndex < b.entryIndex) := by
  rw [List.pairwise_iff_getElem]
  intro i j hi hj before
  rw [spellable.places i hi, spellable.places j hj]
  exact before

/-- A rule file has a CBOR document that loads to the same rules exactly when the registry has the
    identifiers that a file does without and no mapping is taken for something else; a document
    has a rule file exactly when its entries are numbered by their places. -/
theorem documents_compare_iff (items : List SidItem) (narrow : ∀ item ∈ items, item.sid < 2 ^ 64)
    (ctx : RuleContext) :
    (∀ file, RuleContext.fromJson file (.ofItems items) = .ok ctx →
      ((∃ root, RuleContext.fromCbor root (.ofItems items) = .ok ctx) ↔
        ∀ rule ∈ ctx.rules.rules, rule.nature.Writable (.ofItems items) ∧
          ∀ field ∈ rule.fields, field.Carried (.ofItems items))) ∧
    ∀ root, RuleContext.fromCbor root (.ofItems items) = .ok ctx →
      ((∃ file, RuleContext.fromJson file (.ofItems items) = .ok ctx) ↔
        ∀ rule ∈ ctx.rules.rules, ∀ k (h : k < rule.fields.length), rule.fields[k].entryIndex = k) := by
  constructor
  · intro file loaded
    obtain ⟨own, spellable⟩ := fromJson_spellable loaded
    have spelled := spellable.rules
    rw [own] at spelled
    constructor
    · rintro ⟨root, loaded⟩
      have writable := (fromCbor_writable loaded).2.rules
      rw [own] at writable
      intro rule member
      refine ⟨(writable rule member).nature, fun field inside => ?_⟩
      exact (FieldRule.writable_iff narrow ((spelled rule member).fields field inside)).mp
        ((writable rule member).fields field inside)
    · intro settled
      refine ⟨ctx.toCbor, fromCbor_toCbor own ⟨?_, spellable.prefixFree⟩⟩
      rw [own]
      intro rule member
      obtain ⟨nature, fields⟩ := settled rule member
      refine ⟨(spelled rule member).id, nature, (spelled rule member).sorted, ?_⟩
      intro field inside
      exact (FieldRule.writable_iff narrow ((spelled rule member).fields field inside)).mpr
        (fields field inside)
  · intro root loaded
    obtain ⟨own, writable⟩ := fromCbor_writable loaded
    constructor
    · rintro ⟨file, loaded⟩ rule member
      exact ((fromJson_spellable loaded).2.rules rule member).places
    · intro places
      refine ⟨ctx.toJson, own ▸ fromJson_toJson ⟨?_, writable.prefixFree⟩⟩
      have written := writable.rules
      rw [own] at written ⊢
      intro rule member
      exact ⟨(written rule member).id, places rule member,
        fun field inside => ((written rule member).fields field inside).spellable narrow⟩

theorem documents_compare_at_mapping :
    ∃ file, RuleContext.fromJson file mappingRegistry = .ok mappingContext := by
  refine ((documents_compare_iff _ (by decide) mappingContext).2 _ mappingContext_made).mpr ?_
  intro rule member
  obtain rfl := List.mem_singleton.mp member
  intro k inside
  obtain rfl : k = 0 := Nat.lt_one_iff.mp inside
  rfl

end SchcCore
