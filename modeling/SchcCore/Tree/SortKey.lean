import SchcCore.Lib.PrefixCode
import SchcCore.Tree.Build

/- The sort key of a branch can be read back: every part ends where its tag or its count says,
   so entries have one key exactly when they go into one group. -/
namespace SchcCore
open BigEndian PrefixCode

/-- A number that a machine word holds. -/
def Word (n : Nat) : Prop := n < 2 ^ 64

def FieldName.bytes (name : FieldName) : List UInt8 := name.text.toUTF8.data.toList

/-- The numbers and lengths of a value are machine words. -/
def FieldRef.Sized : FieldRef → Prop
  | .ipv6 name | .udp name | .coap name | .icmpv6 name => Word name.bytes.length
  | .coapOption number => Word number
  | .unknownSid sid => Word sid
  | .unused | .payload | .syntheticCoapMarker => True

def FieldLength.Sized : FieldLength → Prop
  | .fixedBits bits => Word bits
  | .fromPreviousField entryIndex _ => Word entryIndex
  | .functionSid sid => Word sid
  | .variableBytes | .variableBits | .tokenLength => True

def TargetValue.Sized : TargetValue → Prop
  | .none => True
  | .bytes value => Word value.length
  | .mapping values => Word values.length ∧ ∀ value ∈ values, Word value.length

def MatchingOperator.Sized : MatchingOperator → Prop
  | .msb bits => Word bits
  | .equal | .ignore | .matchMapping => True

structure FieldRule.Sized (fieldRule : FieldRule) : Prop where
  field : fieldRule.field.Sized
  position : Word fieldRule.fieldPosition
  length : fieldRule.length.Sized
  target : fieldRule.target.Sized
  matching : fieldRule.matching.Sized

def Rule.Sized (rule : Rule) : Prop := ∀ field ∈ rule.fields, field.Sized

theorem KnownName.find_text (name : KnownName) :
    KnownName.all.find? (fun other => other.text = name.text) = some name := by
  cases name <;> decide +kernel

theorem KnownName.text_injective {a b : KnownName} (same : a.text = b.text) : a = b := by
  have found := a.find_text
  rw [same, b.find_text] at found
  exact (Option.some.inj found).symm

theorem KnownName.text_mem (name : KnownName) : name.text ∈ KnownName.all.map KnownName.text :=
  List.mem_map_of_mem (List.mem_of_find?_eq_some name.find_text)

theorem FieldName.text_injective (a b : FieldName) (same : a.text = b.text) : a = b := by
  cases a with
  | known a =>
    have listed := a.text_mem
    cases b with
    | known b => rw [KnownName.text_injective same]
    | other b =>
      rw [show a.text = b.val from same] at listed
      exact absurd listed b.property
  | other a =>
    cases b with
    | known b =>
      have listed := b.text_mem
      rw [← show a.val = b.text from same] at listed
      exact absurd listed a.property
    | other b => rw [Subtype.ext same]

theorem FieldName.bytes_injective (a b : FieldName) (same : a.bytes = b.bytes) : a = b := by
  apply FieldName.text_injective
  apply String.toByteArray_inj.mp
  exact ByteArray.ext (Array.toList_inj.mp same)

/- The encoders. -/

theorem delimited_wordBytes : Delimited wordBytes Word := by
  refine Delimited.of_length (fun n => length_toBytes 8 n) fun a b wordA wordB same => ?_
  have read := congrArg value same
  rwa [wordBytes, wordBytes, value_toBytes wordA, value_toBytes wordB] at read

theorem delimited_countedBytes : Delimited countedBytes (fun bytes => Word bytes.length) := by
  have single : Delimited (fun b : UInt8 => [b]) (fun _ => True) :=
    Delimited.of_length (fun _ => rfl) fun a b _ _ same => List.singleton_inj.mp same
  intro a b wordA wordB s t same
  have spelled : ∀ bytes, countedBytes bytes =
      wordBytes bytes.length ++ bytes.flatMap (fun b => [b]) := by
    intro bytes
    rw [countedBytes, List.flatMap_singleton']
  rw [spelled, spelled] at same
  exact single.counted delimited_wordBytes a b ⟨wordA, fun _ _ => trivial⟩
    ⟨wordB, fun _ _ => trivial⟩ s t same

theorem delimited_name : Delimited (fun name : FieldName => countedBytes name.bytes)
    (fun name => Word name.bytes.length) :=
  delimited_countedBytes.comp (fun _ word => word) FieldName.bytes_injective

theorem delimited_fieldRefKey : Delimited fieldRefKey FieldRef.Sized := by
  intro a b sizedA sizedB s t same
  cases a <;> cases b <;> first
    | exact absurd (List.cons.inj same).1 (by decide)
    | replace same := (List.cons.inj same).2
  case ipv6.ipv6 | udp.udp | coap.coap | icmpv6.icmpv6 =>
    obtain ⟨rfl, rest⟩ := delimited_name _ _ sizedA sizedB s t same
    exact ⟨rfl, rest⟩
  case coapOption.coapOption | unknownSid.unknownSid =>
    obtain ⟨rfl, rest⟩ := delimited_wordBytes _ _ sizedA sizedB s t same
    exact ⟨rfl, rest⟩
  case unused.unused | payload.payload | syntheticCoapMarker.syntheticCoapMarker =>
    exact ⟨rfl, same⟩

theorem delimited_fieldLengthKey : Delimited fieldLengthKey FieldLength.Sized := by
  intro a b sizedA sizedB s t same
  cases a <;> cases b <;> first
    | exact absurd (List.cons.inj same).1 (by decide)
    | replace same := (List.cons.inj same).2
  case fixedBits.fixedBits | functionSid.functionSid =>
    obtain ⟨rfl, rest⟩ := delimited_wordBytes _ _ sizedA sizedB s t same
    exact ⟨rfl, rest⟩
  case variableBytes.variableBytes | variableBits.variableBits | tokenLength.tokenLength =>
    exact ⟨rfl, same⟩
  case fromPreviousField.fromPreviousField entry unit entry' unit' =>
    simp only [List.append_eq, List.append_assoc] at same
    obtain ⟨rfl, units⟩ := delimited_wordBytes _ _ sizedA sizedB _ _ same
    cases unit <;> cases unit' <;> first
      | exact absurd (List.cons.inj units).1 (by decide)
      | exact ⟨rfl, (List.cons.inj units).2⟩

theorem delimited_directionKey : Delimited directionKey (fun _ => True) := by
  intro a b _ _ s t same
  cases a <;> cases b <;> first
    | exact absurd (List.cons.inj same).1 (by decide)
    | exact ⟨rfl, (List.cons.inj same).2⟩

theorem delimited_targetKey : Delimited targetKey TargetValue.Sized := by
  intro a b sizedA sizedB s t same
  cases a <;> cases b <;> first
    | exact absurd (List.cons.inj same).1 (by decide)
    | replace same := (List.cons.inj same).2
  case none.none => exact ⟨rfl, same⟩
  case bytes.bytes =>
    obtain ⟨rfl, rest⟩ := delimited_countedBytes _ _ sizedA sizedB s t same
    exact ⟨rfl, rest⟩
  case mapping.mapping =>
    obtain ⟨rfl, rest⟩ :=
      delimited_countedBytes.counted delimited_wordBytes _ _ sizedA sizedB s t same
    exact ⟨rfl, rest⟩

theorem delimited_matchingKey : Delimited matchingKey MatchingOperator.Sized := by
  intro a b sizedA sizedB s t same
  cases a <;> cases b <;> first
    | exact absurd (List.cons.inj same).1 (by decide)
    | replace same := (List.cons.inj same).2
  case equal.equal | ignore.ignore | matchMapping.matchMapping => exact ⟨rfl, same⟩
  case msb.msb =>
    obtain ⟨rfl, rest⟩ := delimited_wordBytes _ _ sizedA sizedB s t same
    exact ⟨rfl, rest⟩

theorem delimited_cdaKey : Delimited cdaKey (fun _ => True) := by
  intro a b _ _ s t same
  cases a <;> cases b <;> first
    | exact absurd (List.cons.inj same).1 (by decide)
    | exact ⟨rfl, (List.cons.inj same).2⟩

theorem delimited_optionalFieldRefKey :
    Delimited optionalFieldRefKey (fun next => ∀ field ∈ next, field.Sized) := by
  intro a b sizedA sizedB s t same
  cases a <;> cases b <;> first
    | exact absurd (List.cons.inj same).1 (by decide)
    | replace same := (List.cons.inj same).2
  case none.none => exact ⟨rfl, same⟩
  case some.some field field' =>
    obtain ⟨rfl, rest⟩ := delimited_fieldRefKey _ _ (sizedA field rfl) (sizedB field' rfl) s t same
    exact ⟨rfl, rest⟩

/-- The sort key is injective on the parts that branches are merged on. -/
theorem branchSortKey_inj {a b : FieldRule} {next next' : Option FieldRef} (sizedA : a.Sized)
    (sizedB : b.Sized) (sizedNext : ∀ field ∈ next, field.Sized)
    (sizedNext' : ∀ field ∈ next', field.Sized) :
    branchSortKey a next = branchSortKey b next' ↔
      a.field = b.field ∧ a.fieldPosition = b.fieldPosition ∧ a.length = b.length ∧
        a.direction = b.direction ∧ a.target = b.target ∧ a.matching = b.matching ∧
        a.action = b.action ∧ next = next' := by
  constructor
  · intro same
    simp only [branchSortKey, List.append_assoc] at same
    obtain ⟨field, same⟩ := delimited_fieldRefKey _ _ sizedA.field sizedB.field _ _ same
    obtain ⟨position, same⟩ := delimited_wordBytes _ _ sizedA.position sizedB.position _ _ same
    obtain ⟨length, same⟩ := delimited_fieldLengthKey _ _ sizedA.length sizedB.length _ _ same
    obtain ⟨direction, same⟩ := delimited_directionKey _ _ trivial trivial _ _ same
    obtain ⟨target, same⟩ := delimited_targetKey _ _ sizedA.target sizedB.target _ _ same
    obtain ⟨matching, same⟩ := delimited_matchingKey _ _ sizedA.matching sizedB.matching _ _ same
    obtain ⟨action, same⟩ := delimited_cdaKey _ _ trivial trivial _ _ same
    exact ⟨field, position, length, direction, target, matching, action,
      delimited_optionalFieldRefKey.injective sizedNext sizedNext' same⟩
  · rintro ⟨field, position, length, direction, target, matching, action, rfl⟩
    rw [branchSortKey, branchSortKey, field, position, length, direction, target, matching, action]

end SchcCore
