import SchcCore.Rule.Load
import SchcCore.Lib.BitList

/- What the loaders guarantee about a context: identifiers of 1 to 64 bits that form a
   prefix-free code, and field rules whose operator, action and target fit together. -/
namespace SchcCore
open Outcome BitList

/-- An identifier as it stands at the head of a datagram. -/
def RuleId.bits (id : RuleId) : List Bool := ofNat id.bitLen id.value

@[simp] theorem RuleId.length_bits (id : RuleId) : id.bits.length = id.bitLen := by
  simp [RuleId.bits]

structure RuleId.Fits (id : RuleId) : Prop where
  positive : 0 < id.bitLen
  narrow : id.bitLen ≤ 64
  value : id.value < 2 ^ id.bitLen

theorem ruleIdCollision_eq_none {a b : RuleId} (ha : a.Fits) (hb : b.Fits) :
    ruleIdCollision a b = none ↔ ¬ a.bits <+: b.bits ∧ ¬ b.bits <+: a.bits := by
  simp only [RuleId.bits, ofNat_prefix_iff ha.value hb.value, ofNat_prefix_iff hb.value ha.value]
  unfold ruleIdCollision
  rcases Nat.lt_trichotomy a.bitLen b.bitLen with shorter | same | longer
  · have differ : a.bitLen ≠ b.bitLen := by omega
    have order : ¬ b.bitLen ≤ a.bitLen := by omega
    simp [differ, shorter, order, Nat.le_of_lt shorter]
  · simp [same, eq_comm]
  · have differ : a.bitLen ≠ b.bitLen := by omega
    have order : ¬ a.bitLen < b.bitLen := by omega
    have order' : ¬ a.bitLen ≤ b.bitLen := by omega
    simp [differ, order, order', Nat.le_of_lt longer]

theorem checkCollisions_eq_ok (later : Rule) (before : List Rule) :
    checkCollisions later before = .ok () ↔
      ∀ earlier ∈ before, ruleIdCollision earlier.id later.id = none := by
  induction before with
  | nil => simp [checkCollisions]
  | cons earlier before ih =>
    rw [checkCollisions]
    cases hit : ruleIdCollision earlier.id later.id with
    | none => simp [hit, ih]
    | some pair => simp [hit]

theorem checkPrefixes_eq_ok (before rules : List Rule)
    (apart : before.Pairwise (fun a b => ruleIdCollision a.id b.id = none)) :
    checkPrefixes before rules = .ok () ↔
      (before ++ rules).Pairwise (fun a b => ruleIdCollision a.id b.id = none) := by
  induction rules generalizing before with
  | nil => simp [checkPrefixes, apart]
  | cons later rules ih =>
    have split : before ++ later :: rules = (before ++ [later]) ++ rules := by simp
    rw [checkPrefixes, bind_eq_ok]
    constructor
    · rintro ⟨_, first, rest⟩
      rw [checkCollisions_eq_ok] at first
      rw [split]
      refine (ih (before ++ [later]) ?_).mp rest
      rw [List.pairwise_append]
      exact ⟨apart, List.pairwise_singleton _ _, by simpa using first⟩
    · intro all
      have grown : (before ++ [later]).Pairwise (fun a b => ruleIdCollision a.id b.id = none) := by
        rw [split, List.pairwise_append] at all
        exact all.1
      refine ⟨(), ?_, (ih (before ++ [later]) grown).mpr (by rwa [← split])⟩
      rw [checkCollisions_eq_ok]
      intro earlier member
      rw [List.pairwise_append] at all
      exact all.2.2 earlier member later List.mem_cons_self

/-- The pairwise shift test accepts exactly the prefix-free lists of identifiers. -/
theorem validateRuleIdPrefixes_eq_ok {rules : List Rule} (fit : ∀ rule ∈ rules, rule.id.Fits) :
    validateRuleIdPrefixes rules = .ok () ↔
      PrefixCode.PrefixFree (rules.map (fun rule => rule.id.bits)) := by
  rw [validateRuleIdPrefixes, checkPrefixes_eq_ok [] rules List.Pairwise.nil, List.nil_append,
    PrefixCode.PrefixFree, List.pairwise_map]
  exact List.Pairwise.iff_of_mem fun ha hb => ruleIdCollision_eq_none (fit _ ha) (fit _ hb)

theorem validateRuleId_eq_ok (ruleIndex : Nat) (id : RuleId) (word : id.value < 2 ^ 64) :
    validateRuleId ruleIndex id.value id.bitLen = .ok () ↔ id.Fits := by
  unfold validateRuleId
  constructor
  · intro accepted
    split at accepted
    · simp at accepted
    · split at accepted
      · simp at accepted
      · rename_i length value
        refine ⟨by omega, by omega, ?_⟩
        rw [Nat.one_shiftLeft] at value
        by_cases wide : id.bitLen = 64
        · rwa [wide]
        · omega
  · intro fits
    have length : ¬ (id.bitLen = 0 ∨ id.bitLen > 64) := by
      have := fits.positive
      have := fits.narrow
      omega
    have value : ¬ (id.bitLen < 64 ∧ id.value ≥ 1 <<< id.bitLen) := by
      rw [Nat.one_shiftLeft]
      have := fits.value
      omega
    simp [length, value]

/-- What `validate_field_rule` checks. -/
structure FieldRule.Valid (field : FieldRule) : Prop where
  byteMatching : field.matching = .equal ∨ field.matching.isMsb → field.target.isBytes
  mappingMatching : field.matching = .matchMapping → field.target.isFilledMapping
  mappingSent : field.action = .mappingSent → field.target.isFilledMapping
  byteTarget : field.action = .notSent ∨ field.action = .lsb → field.field ≠ .syntheticCoapMarker →
    field.target.isBytes
  lsb : field.action = .lsb → field.matching.isMsb
  compute : field.action = .compute → isComputeSupported field.field
  appIid : field.action = .appIid → field.field = .ipv6 (.known .ipv6AppIid)
  deviceIid : field.action = .deviceIid → field.field = .ipv6 (.known .ipv6DevIid)
  marker : field.field = .syntheticCoapMarker → field.action = .notSent ∧ field.matching = .ignore
  payload : payloadLengthIsSupported field

theorem validateFieldRule_eq_ok (ruleIndex : Nat) (field : FieldRule) :
    validateFieldRule ruleIndex field = .ok () ↔ field.Valid := by
  simp only [validateFieldRule, reject_eq_ok (invalidField_ne_ok _ _ _), and_true]
  constructor
  · rintro ⟨byteMatching, mappingMatching, mappingSent, byteTarget, lsb, compute, appIid,
      deviceIid, marker, payload⟩
    constructor <;> grind
  · intro valid
    obtain ⟨byteMatching, mappingMatching, mappingSent, byteTarget, lsb, compute, appIid,
      deviceIid, marker, payload⟩ := valid
    grind

structure Rule.Valid (rule : Rule) : Prop where
  id : rule.id.Fits
  fields : ∀ field ∈ rule.fields, field.Valid

theorem loadField_valid {registry : SidRegistry} {ruleIndex entryIndex : Nat} {json : JsonField}
    {field : FieldRule} (loaded : loadField registry ruleIndex entryIndex json = .ok field) :
    field.Valid ∧ field.entryIndex = entryIndex := by
  simp only [loadField, bind_eq_ok] at loaded
  obtain ⟨_, -, _, -, _, -, _, -, _, -, _, -, _, checked, loaded⟩ := loaded
  cases loaded
  exact ⟨(validateFieldRule_eq_ok _ _).mp checked, rfl⟩

theorem loadJsonRule_valid {registry : SidRegistry} {ruleIndex : Nat} {json : JsonRule}
    {rule : Rule} (loaded : loadJsonRule registry ruleIndex json = .ok rule) : rule.Valid := by
  simp only [loadJsonRule, bind_eq_ok] at loaded
  obtain ⟨_, checked, fields, made, _, -, loaded⟩ := loaded
  cases loaded
  refine ⟨(validateRuleId_eq_ok ruleIndex ⟨_, _⟩ json.ruleId.toNat_lt).mp checked, ?_⟩
  intro field member
  obtain ⟨_, _, _, made⟩ := mapIndexed_mem made member
  exact (loadField_valid made).1

/-- A JSON rule numbers its entries by their place in the list. -/
theorem loadJsonRule_entryIndex {registry : SidRegistry} {ruleIndex : Nat} {json : JsonRule}
    {rule : Rule} (loaded : loadJsonRule registry ruleIndex json = .ok rule) (k : Nat)
    (h : k < rule.fields.length) : rule.fields[k].entryIndex = k := by
  simp only [loadJsonRule, bind_eq_ok] at loaded
  obtain ⟨_, -, fields, made, _, -, loaded⟩ := loaded
  cases loaded
  obtain ⟨_, _, made⟩ := mapIndexed_getElem made k h
  simpa using (loadField_valid made).2

theorem loadCborEntry_valid {registry : SidRegistry} {ruleIndex entryOrder entryIndex : Nat}
    {value : CborValue} {ref : FieldRef} {field : FieldRule}
    (loaded : loadCborEntry registry ruleIndex entryOrder value entryIndex ref = .ok field) :
    field.Valid := by
  simp only [loadCborEntry, bind_eq_ok] at loaded
  obtain ⟨_, -, _, -, _, -, _, -, _, -, _, -, _, -, _, -, _, -, _, checked, loaded⟩ := loaded
  cases loaded
  exact (validateFieldRule_eq_ok _ _).mp checked

theorem loadCborField_valid {registry : SidRegistry} {ruleIndex entryOrder : Nat}
    {value : CborValue} {field : FieldRule}
    (loaded : loadCborField registry ruleIndex entryOrder value = .ok field) : field.Valid := by
  unfold loadCborField at loaded
  split at loaded
  · simp only [loadCborCoreconfField, bind_eq_ok] at loaded
    obtain ⟨_, -, _, -, _, -, _, -, loaded⟩ := loaded
    exact loadCborEntry_valid loaded
  · simp only [loadCborUniversalOptionField, bind_eq_ok,
      reject_eq_ok (invalidField_ne_ok _ _ _)] at loaded
    obtain ⟨_, -, _, -, _, -, -, _, -, loaded⟩ := loaded
    exact loadCborEntry_valid loaded
  · simp at loaded

theorem requiredU64_lt {value : CborValue} {key : Int} {n : Nat}
    (found : requiredU64 value key = .ok n) : n < 2 ^ 64 := by
  unfold requiredU64 at found
  cases looked : requiredMapValue value key with
  | error reason =>
    rw [looked] at found
    cases found
  | ok inner =>
    rw [looked] at found
    change valueToU64 inner = .ok n at found
    unfold valueToU64 at found
    split at found
    · split at found
      · cases found
        omega
      · cases found
    · cases found

theorem orElse_eq_ok {α : Type} {outcome : Except String α} {report : String → Result α} {a : α}
    (rejects : ∀ reason, report reason ≠ .ok a) : orElse outcome report = .ok a ↔ outcome = .ok a := by
  cases outcome <;> simp [orElse, rejects]

theorem loadCborRule_valid {registry : SidRegistry} {ruleIndex : Nat} {value : CborValue}
    {rule : Rule} (loaded : loadCborRule registry ruleIndex value = .ok rule) : rule.Valid := by
  simp only [loadCborRule, bind_eq_ok, orElse_eq_ok (fun _ => invalidRule_ne_ok _ _ _),
    normalizeCborFields] at loaded
  obtain ⟨_, -, _, word, _, checked, _, -, _, -, _, made, _, ⟨_, -, sorted⟩, loaded⟩ := loaded
  cases sorted
  cases loaded
  refine ⟨(validateRuleId_eq_ok ruleIndex ⟨_, _⟩ (requiredU64_lt word)).mp checked, ?_⟩
  intro field member
  rw [List.mem_insertionSort] at member
  obtain ⟨_, _, _, made⟩ := mapIndexed_mem made member
  exact loadCborField_valid made

/-- What every loaded context keeps. -/
structure RuleContext.Valid (ctx : RuleContext) : Prop where
  rules : ∀ rule ∈ ctx.rules.rules, rule.Valid
  prefixFree : PrefixCode.PrefixFree (ctx.rules.rules.map (fun rule => rule.id.bits))

theorem RuleContext.valid_of_rules {rules : List Rule} {registry : SidRegistry}
    (valid : ∀ rule ∈ rules, rule.Valid) (checked : validateRuleIdPrefixes rules = .ok ()) :
    RuleContext.Valid ⟨⟨rules, registry⟩⟩ :=
  ⟨valid, (validateRuleIdPrefixes_eq_ok fun rule member => (valid rule member).id).mp checked⟩

theorem RuleContext.Loaded.valid {ctx : RuleContext} (loaded : ctx.Loaded) : ctx.Valid := by
  cases loaded with
  | json file registry made =>
    simp only [RuleContext.fromJson, bind_eq_ok] at made
    obtain ⟨rules, each, _, checked, made⟩ := made
    cases made
    refine valid_of_rules ?_ checked
    intro rule member
    obtain ⟨_, _, _, made⟩ := mapIndexed_mem each member
    exact loadJsonRule_valid made
  | cbor root registry made =>
    simp only [RuleContext.fromCbor, bind_eq_ok] at made
    obtain ⟨_, -, _, -, rules, each, _, checked, made⟩ := made
    cases made
    refine valid_of_rules ?_ checked
    intro rule member
    obtain ⟨_, _, _, made⟩ := mapIndexed_mem each member
    exact loadCborRule_valid made

theorem fromJson_rule {file : RuleFile} {registry : SidRegistry} {ctx : RuleContext}
    (loaded : RuleContext.fromJson file registry = .ok ctx) {rule : Rule}
    (member : rule ∈ ctx.rules.rules) :
    ∀ k (h : k < rule.fields.length), rule.fields[k].entryIndex = k := by
  simp only [RuleContext.fromJson, bind_eq_ok] at loaded
  obtain ⟨rules, each, _, -, loaded⟩ := loaded
  cases loaded
  obtain ⟨_, _, _, made⟩ := mapIndexed_mem each member
  exact loadJsonRule_entryIndex made

end SchcCore
