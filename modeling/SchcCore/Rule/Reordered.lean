import SchcCore.Lib.Reorder
import SchcCore.Rule.Valid

/- The order of arrays in a CBOR rule document. Entries and listed values carry their indexes;
   the loader sorts by these, so documents that differ in the order load alike. -/
namespace SchcCore
open Outcome Reorder

/- Documents that differ in the order of arrays. -/

/-- How the values under one key of two maps are related. -/
def UnderKey (related : Int → CborValue → CborValue → Prop) (key value value' : CborValue) : Prop :=
  match integerKey key with
  | some key => related key value value'
  | none => value = value'

/-- Maps with the same keys in the same order, and related values. -/
def AlikeMap (related : Int → CborValue → CborValue → Prop) : CborValue → CborValue → Prop
  | .map entries, .map entries' => List.Forall₂
      (fun entry entry' => entry.1 = entry'.1 ∧ UnderKey related entry.1 entry.2 entry'.2)
      entries entries'
  | value, value' => value = value'

/-- Arrays with the same values in some order. -/
def Shuffled : CborValue → CborValue → Prop
  | .array values, .array values' => values.Perm values'
  | value, value' => value = value'

/-- Entries up to the order of their target values and matching-operator values. -/
def EntryAlike : CborValue → CborValue → Prop :=
  AlikeMap (fun key => if key = 9 ∨ key = 13 then Shuffled else Eq)

/-- Entry arrays with such entries in some order. -/
def EntriesAlike : CborValue → CborValue → Prop
  | .array entries, .array entries' =>
      ∃ middle, List.Forall₂ EntryAlike entries middle ∧ middle.Perm entries'
  | value, value' => value = value'

def RuleAlike : CborValue → CborValue → Prop :=
  AlikeMap (fun key => if key = 23 then EntriesAlike else Eq)

/-- Rule lists with such rules in the same order. -/
def RulesAlike : CborValue → CborValue → Prop
  | .array rules, .array rules' => List.Forall₂ RuleAlike rules rules'
  | value, value' => value = value'

def EnvelopeAlike : CborValue → CborValue → Prop :=
  AlikeMap (fun key => if key = 23 then RulesAlike else Eq)

/-- Documents up to the order of entries, target values and matching-operator values. -/
def Reordered : CborValue → CborValue → Prop :=
  AlikeMap (fun key => if key = 2574 then EnvelopeAlike else Eq)

section
variable {related : Int → CborValue → CborValue → Prop} {value value' : CborValue}

theorem AlikeMap.lookup (alike : AlikeMap related value value') (key : Int) :
    Option.Rel (related key) (mapValue value key) (mapValue value' key) := by
  unfold AlikeMap at alike
  split at alike
  · rename_i entries entries'
    simp only [mapValue]
    induction alike with
    | nil => exact .none
    | @cons entry entry' entries entries' here _ ih =>
      obtain ⟨same, under⟩ := here
      rw [List.findSome?_cons, List.findSome?_cons, ← same]
      by_cases found : integerKey entry.1 = some key
      · rw [if_pos found, if_pos found]
        rw [UnderKey, found] at under
        exact .some under
      · rw [if_neg found, if_neg found]
        exact ih
  · rename_i other
    subst alike
    cases value with
    | map entries => exact absurd rfl (other entries entries rfl)
    | _ => exact .none

theorem AlikeMap.same (alike : AlikeMap related value value') {key : Int}
    (plain : related key = Eq) : mapValue value key = mapValue value' key := by
  have both := alike.lookup key
  rw [plain] at both
  generalize mapValue value key = found at both ⊢
  generalize mapValue value' key = found' at both ⊢
  cases both with
  | none => rfl
  | some same => rw [same]

end

/- Reading what a field needs. -/

section
variable {registry : SidRegistry} {value value' : CborValue} {key : Int}
  {ruleIndex order order' : Nat}

theorem requiredMapValue_eq_ok {found : CborValue} :
    requiredMapValue value key = .ok found ↔ mapValue value key = some found := by
  unfold requiredMapValue
  cases mapValue value key <;> simp

theorem requiredFieldValue_eq_ok {found : CborValue} :
    requiredFieldValue value key ruleIndex order = .ok found ↔ mapValue value key = some found := by
  rw [requiredFieldValue, orElse_eq_ok (fun _ => invalidField_ne_ok _ _ _ _), requiredMapValue_eq_ok]

theorem requiredFieldInteger_eq_ok {type : String} {n : Nat} :
    requiredFieldInteger type value key ruleIndex order = .ok n ↔
      ∃ found, mapValue value key = some found ∧ valueToU64 found = .ok n := by
  rw [requiredFieldInteger, bind_eq_ok]
  simp only [requiredFieldValue_eq_ok, orElse_eq_ok (fun _ => invalidField_ne_ok _ _ _ _)]

theorem alike_requiredFieldInteger (type : String) (same : mapValue value key = mapValue value' key) :
    Alike (requiredFieldInteger type value key ruleIndex order)
      (requiredFieldInteger type value' key ruleIndex order') := by
  intro n
  rw [requiredFieldInteger_eq_ok, requiredFieldInteger_eq_ok, same]

theorem alike_sidIdentifier (kind : String) (sid : Nat) :
    Alike (sidIdentifier registry ruleIndex order kind sid)
      (sidIdentifier registry ruleIndex order' kind sid) := by
  unfold sidIdentifier
  cases registry.identifier sid with
  | ok identifier => exact .refl _
  | error halt => exact .error _ _

theorem alike_valueToBytes (value : CborValue) :
    Alike (valueToBytes ruleIndex order value) (valueToBytes ruleIndex order' value) := by
  unfold valueToBytes
  split
  · exact .refl _
  · split
    · exact .refl _
    · exact .error _ _
  · exact .error _ _

theorem alike_direction (sid : Nat) :
    Alike (cborDirectionSelector registry ruleIndex order sid)
      (cborDirectionSelector registry ruleIndex order' sid) := by
  refine (alike_sidIdentifier _ _).bind fun identifier => ?_
  exact .ite (.refl _) (.ite (.refl _) (.ite (.refl _) (.error _ _)))

theorem alike_cda (sid : Nat) :
    Alike (cborCda registry ruleIndex order sid) (cborCda registry ruleIndex order' sid) := by
  refine (alike_sidIdentifier _ _).bind fun identifier => ?_
  exact .ite (.refl _) (.ite (.refl _) (.ite (.refl _) (.ite (.refl _) (.ite (.refl _)
    (.ite (.refl _) (.ite (.refl _) (.error _ _)))))))

theorem alike_lengthParameter (parameter : Option CborValue) :
    Alike (fieldLengthParameter parameter ruleIndex order)
      (fieldLengthParameter parameter ruleIndex order') := by
  unfold fieldLengthParameter
  split
  · exact .error _ _
  · rename_i integer
    cases valueToU64 (.integer integer) with
    | ok n => exact .refl _
    | error reason => exact .error _ _
  · split
    · exact .refl _
    · exact .error _ _
  · exact .error _ _

theorem alike_lengthFunction (sid : Nat) (parameter : Option CborValue) :
    Alike (fieldLengthFunction registry ruleIndex order sid parameter)
      (fieldLengthFunction registry ruleIndex order' sid parameter) := by
  unfold fieldLengthFunction
  cases registry.identifier sid with
  | error halt => exact .refl _
  | ok identifier =>
    have counted : ∀ unit : LengthUnit, Alike
        (fieldLengthParameter parameter ruleIndex order >>= fun entry =>
          .ok (FieldLength.fromPreviousField entry unit))
        (fieldLengthParameter parameter ruleIndex order' >>= fun entry =>
          .ok (FieldLength.fromPreviousField entry unit)) := by
      intro unit
      exact (alike_lengthParameter parameter).bind fun entry => .refl _
    exact .ite (.refl _) (.ite (.refl _) (.ite (.refl _) (.ite (counted .bytes)
      (.ite (counted .bits) (.refl _)))))

theorem alike_length (same : mapValue value key = mapValue value' key)
    (parameter : Option CborValue) :
    Alike (cborFieldLength registry value key parameter ruleIndex order)
      (cborFieldLength registry value' key parameter ruleIndex order') := by
  have found : Alike (requiredFieldValue value key ruleIndex order)
      (requiredFieldValue value' key ruleIndex order') := by
    intro found
    rw [requiredFieldValue_eq_ok, requiredFieldValue_eq_ok, same]
  refine found.bind fun length => ?_
  split
  · split
    · exact .refl _
    · exact .error _ _
  · rename_i boxed
    cases valueToU64 boxed with
    | error reason => exact .error _ _
    | ok sid => exact alike_lengthFunction sid parameter
  · exact .error _ _

end

/- Value lists. -/

/-- The index and the value of a listed value. -/
def readListed (item : CborValue) : Option (Nat × CborValue) :=
  match mapValue item 1, mapValue item 2 with
  | some index, some value => (valueToU64 index).toOption.map (fun index => (index, value))
  | _, _ => none

section
variable {ruleIndex order order' : Nat}

theorem readListed_eq_some {item value : CborValue} {index : Nat} :
    readListed item = some (index, value) ↔
      requiredFieldUsize item 1 ruleIndex order = .ok index ∧
        requiredFieldValue item 2 ruleIndex order = .ok value := by
  rw [requiredFieldUsize, requiredFieldInteger_eq_ok, requiredFieldValue_eq_ok, readListed]
  cases mapValue item 1 with
  | none => simp
  | some place =>
    cases mapValue item 2 with
    | none => simp
    | some found =>
      dsimp only
      cases read : valueToU64 place with
      | error reason => simp [Except.toOption, read]
      | ok n => simp [Except.toOption, read]

theorem nodup_append_one {parsed : List (Nat × CborValue)} {index : Nat} {value : CborValue} :
    ((parsed ++ [(index, value)]).map Prod.fst).Nodup ↔
      (parsed.map Prod.fst).Nodup ∧ ¬ parsed.any (fun entry => entry.1 = index) = true := by
  rw [List.map_append, List.map_singleton, List.nodup_append_comm, List.singleton_append,
    List.nodup_cons, and_comm]
  simp

theorem parseTargetEntries_eq_ok {parsed out : List (Nat × CborValue)}
    (distinct : (parsed.map Prod.fst).Nodup) (items : List CborValue) :
    parseTargetEntries ruleIndex order parsed items = .ok out ↔
      ∃ found : List (Nat × CborValue), items.map readListed = found.map some ∧
        out = parsed ++ found ∧ (out.map Prod.fst).Nodup := by
  induction items generalizing parsed with
  | nil =>
    rw [parseTargetEntries, Except.ok.injEq]
    constructor
    · rintro rfl
      exact ⟨[], rfl, (List.append_nil _).symm, distinct⟩
    · rintro ⟨found, none, rfl, -⟩
      rw [List.map_eq_nil_iff.mp none.symm, List.append_nil]
  | cons item items ih =>
    rw [parseTargetEntries, bind_eq_ok]
    simp only [reject_eq_ok (invalidField_ne_ok _ _ _), bind_eq_ok]
    constructor
    · rintro ⟨index, placed, fresh, value, read, rest⟩
      have here := readListed_eq_some.mpr ⟨placed, read⟩
      have longer : ((parsed ++ [(index, value)]).map Prod.fst).Nodup :=
        nodup_append_one.mpr ⟨distinct, fresh⟩
      obtain ⟨found, later, rfl, apart⟩ := (ih longer).mp rest
      refine ⟨(index, value) :: found, ?_, by simp, apart⟩
      rw [List.map_cons, List.map_cons, here, later]
    · rintro ⟨found, read, whole, apart⟩
      cases found with
      | nil => cases read
      | cons pair found =>
        obtain ⟨index, value⟩ := pair
        rw [List.map_cons, List.map_cons, List.cons.injEq] at read
        obtain ⟨placed, valued⟩ := readListed_eq_some.mp read.1
        have split : out = (parsed ++ [(index, value)]) ++ found := by
          rw [whole]
          simp
        have longer : ((parsed ++ [(index, value)]).map Prod.fst).Nodup := by
          rw [split, List.map_append] at apart
          exact apart.of_append_left
        exact ⟨index, placed, (nodup_append_one.mp longer).2, value, valued,
          (ih longer).mpr ⟨found, read.2, split, apart⟩⟩

theorem checkConsecutive_eq_ok (entries : List (Nat × CborValue)) (expected : Nat) :
    checkConsecutive ruleIndex order expected entries = .ok () ↔
      entries.map Prod.fst = List.range' expected entries.length := by
  induction entries generalizing expected with
  | nil => exact ⟨fun _ => rfl, fun _ => rfl⟩
  | cons entry entries ih =>
    rw [checkConsecutive, reject_eq_ok (invalidField_ne_ok _ _ _), ih, List.map_cons,
      List.length_cons, List.range'_succ, List.cons.injEq, not_not]

/-- The listed values by index, from 0 on without gaps. -/
structure ByIndex (items : List CborValue) (out : List (Nat × CborValue)) : Prop where
  reads : Reads readListed Prod.fst items out
  consecutive : out.map Prod.fst = List.range out.length

theorem sorted_of_consecutive {out : List (Nat × CborValue)}
    (consecutive : out.map Prod.fst = List.range out.length) :
    out.Pairwise (fun a b => a.1 < b.1) := by
  have sorted : (out.map Prod.fst).Pairwise (· < ·) := consecutive ▸ List.pairwise_lt_range
  exact List.pairwise_map.mp sorted

theorem cborTargetEntries_eq_ok {items : List CborValue} {out : List (Nat × CborValue)} :
    cborTargetEntries ruleIndex order (.array items) = .ok out ↔ ByIndex items out := by
  have start : (([] : List (Nat × CborValue)).map Prod.fst).Nodup := List.nodup_nil
  simp only [cborTargetEntries, bind_eq_ok, parseTargetEntries_eq_ok start, List.nil_append,
    Except.ok.injEq]
  constructor
  · rintro ⟨found, ⟨_, read, rfl, distinct⟩, ⟨⟩, checked, rfl⟩
    have consecutive := (checkConsecutive_eq_ok _ 0).mp checked
    rw [← List.range_eq_range'] at consecutive
    exact ⟨reads_iff.mpr ⟨_, read, distinct, rfl⟩, consecutive⟩
  · rintro ⟨reads, consecutive⟩
    obtain ⟨found, read, distinct, rfl⟩ := reads_iff.mp reads
    refine ⟨found, ⟨found, read, rfl, distinct⟩, (), ?_, rfl⟩
    rw [checkConsecutive_eq_ok, consecutive, List.range_eq_range']

theorem ByIndex.of_perm {items items' : List CborValue} {out : List (Nat × CborValue)}
    (listed : ByIndex items out) (same : items.Perm items') : ByIndex items' out :=
  ⟨listed.reads.of_perm same, listed.consecutive⟩

theorem shuffled_refl (value : CborValue) : Shuffled value value := by
  cases value with
  | array values => exact List.Perm.refl values
  | _ => rfl

/-- A value list reads the same in every order. -/
theorem alike_targetEntries {value value' : CborValue} (shuffled : Shuffled value value') :
    Alike (cborTargetEntries ruleIndex order value) (cborTargetEntries ruleIndex order' value') := by
  unfold Shuffled at shuffled
  split at shuffled
  · intro out
    rw [cborTargetEntries_eq_ok, cborTargetEntries_eq_ok]
    exact ⟨fun listed => listed.of_perm shuffled, fun listed => listed.of_perm shuffled.symm⟩
  · rename_i other
    subst shuffled
    cases value with
    | array items => exact absurd rfl (other items items rfl)
    | _ => exact .error _ _

theorem alike_matching {registry : SidRegistry} {list list' : Option CborValue}
    (shuffled : Option.Rel Shuffled list list') (sid : Nat) :
    Alike (cborMatchingOperator registry ruleIndex order sid list)
      (cborMatchingOperator registry ruleIndex order' sid list') := by
  refine (alike_sidIdentifier _ _).bind fun identifier => ?_
  refine .ite (.refl _) (.ite (.refl _) (.ite (.refl _) (.ite ?_ (.error _ _))))
  cases shuffled with
  | none => exact .error _ _
  | some shuffled =>
    refine (alike_targetEntries shuffled).bind fun entries => ?_
    cases entries with
    | nil => exact .error _ _
    | cons bits rest =>
      refine (alike_valueToBytes _).bind fun bytes => ?_
      split
      · exact .refl _
      · exact .error _ _

theorem alike_listedBytes (entries : List (Nat × CborValue)) :
    Alike (entries.mapM (fun entry => valueToBytes ruleIndex order entry.2))
      (entries.mapM (fun entry => valueToBytes ruleIndex order' entry.2)) := by
  induction entries with
  | nil => exact .refl _
  | cons entry entries ih =>
    rw [List.mapM_cons, List.mapM_cons]
    exact (alike_valueToBytes _).bind fun first => ih.bind fun rest => .refl _

theorem alike_target {list list' : Option CborValue} (shuffled : Option.Rel Shuffled list list')
    (matching : MatchingOperator) (action : Cda) :
    Alike (cborTargetValue list matching action ruleIndex order)
      (cborTargetValue list' matching action ruleIndex order') := by
  cases shuffled with
  | none => exact .refl _
  | @some value value' shuffled =>
    unfold Shuffled at shuffled
    split at shuffled
    · rename_i items items'
      have both : Shuffled (.array items) (.array items') := shuffled
      exact (alike_targetEntries both).bind fun entries =>
        (alike_listedBytes entries).bind fun values => .refl _
    · subst shuffled
      cases value with
      | null => exact .refl _
      | _ =>
        exact (alike_targetEntries (shuffled_refl _)).bind fun entries =>
          (alike_listedBytes entries).bind fun values => .refl _

end

/- Entries. -/

section
variable {registry : SidRegistry} {ruleIndex order order' : Nat} {entry entry' : CborValue}

theorem EntryAlike.same (alike : EntryAlike entry entry') {key : Int} (other : key ≠ 9 ∧ key ≠ 13) :
    mapValue entry key = mapValue entry' key := by
  apply AlikeMap.same alike
  rw [if_neg (not_or.mpr other)]

theorem EntryAlike.shuffled (alike : EntryAlike entry entry') {key : Int}
    (listed : key = 9 ∨ key = 13) :
    Option.Rel Shuffled (mapValue entry key) (mapValue entry' key) := by
  have both := AlikeMap.lookup alike key
  rwa [if_pos listed] at both

theorem alike_loadCborEntry (alike : EntryAlike entry entry') (entryIndex : Nat) (field : FieldRef) :
    Alike (loadCborEntry registry ruleIndex order entry entryIndex field)
      (loadCborEntry registry ruleIndex order' entry' entryIndex field) := by
  have parameter : mapValue entry 6 = mapValue entry' 6 := alike.same (by decide)
  unfold loadCborEntry
  rw [parameter]
  refine (alike_length (alike.same (by decide)) _).bind fun length => ?_
  refine (alike_requiredFieldInteger "u64" (alike.same (by decide))).bind fun directionSid => ?_
  refine (alike_direction directionSid).bind fun direction => ?_
  refine (alike_requiredFieldInteger "usize" (alike.same (by decide))).bind fun position => ?_
  refine (alike_requiredFieldInteger "u64" (alike.same (by decide))).bind fun matchingSid => ?_
  refine (alike_matching (alike.shuffled (.inr rfl)) matchingSid).bind fun matching => ?_
  refine (alike_requiredFieldInteger "u64" (alike.same (by decide))).bind fun actionSid => ?_
  refine (alike_cda actionSid).bind fun action => ?_
  exact (alike_target (alike.shuffled (.inl rfl)) matching action).bind fun target => .refl _

/-- An entry loads alike wherever it stands and however its value lists are ordered. -/
theorem alike_loadCborField (alike : EntryAlike entry entry') :
    Alike (loadCborField registry ruleIndex order entry)
      (loadCborField registry ruleIndex order' entry') := by
  have field : mapValue entry 2 = mapValue entry' 2 := alike.same (by decide)
  have space : mapValue entry 3 = mapValue entry' 3 := alike.same (by decide)
  have number : mapValue entry 4 = mapValue entry' 4 := alike.same (by decide)
  unfold loadCborField
  rw [field, space, number]
  split
  · unfold loadCborCoreconfField
    refine (alike_requiredFieldInteger "usize" (alike.same (by decide))).bind fun entryIndex => ?_
    refine (alike_requiredFieldInteger "u64" (alike.same (by decide))).bind fun fieldSid => ?_
    refine (alike_sidIdentifier _ _).bind fun identifier => ?_
    have resolved : Alike
        (resolveSupportedFieldRef ruleIndex order identifier fieldSid (fieldRef identifier fieldSid))
        (resolveSupportedFieldRef ruleIndex order' identifier fieldSid
          (fieldRef identifier fieldSid)) := by
      unfold resolveSupportedFieldRef
      split
      · exact .error _ _
      · exact .refl _
    exact resolved.bind fun field => alike_loadCborEntry alike entryIndex field
  · unfold loadCborUniversalOptionField
    refine (alike_requiredFieldInteger "usize" (alike.same (by decide))).bind fun entryIndex => ?_
    refine (alike_requiredFieldInteger "u64" (alike.same (by decide))).bind fun spaceSid => ?_
    refine (alike_sidIdentifier _ _).bind fun space => ?_
    refine .ite (.error _ _) ?_
    refine (alike_requiredFieldInteger "u64" (alike.same (by decide))).bind fun number => ?_
    exact alike_loadCborEntry alike entryIndex _
  · exact .error _ _

theorem AlikeMap.refl {related : Int → CborValue → CborValue → Prop}
    (each : ∀ key value, related key value value) (value : CborValue) :
    AlikeMap related value value := by
  cases value with
  | map entries =>
    refine List.forall₂_same.mpr fun pair _ => ⟨rfl, ?_⟩
    unfold UnderKey
    split
    · exact each _ _
    · rfl
  | _ => rfl

theorem EntryAlike.refl (entry : CborValue) : EntryAlike entry entry := by
  refine AlikeMap.refl (fun key value => ?_) entry
  split
  · exact shuffled_refl value
  · rfl

/-- The field that an entry loads to. -/
def readEntry (registry : SidRegistry) (ruleIndex : Nat) (entry : CborValue) : Option FieldRule :=
  (loadCborField registry ruleIndex 0 entry).toOption

theorem readEntry_eq_some {field : FieldRule} : readEntry registry ruleIndex entry = some field ↔
    loadCborField registry ruleIndex 0 entry = .ok field := by
  unfold readEntry
  cases loadCborField registry ruleIndex 0 entry <;> simp [Except.toOption]

theorem readEntry_alike (alike : EntryAlike entry entry') :
    readEntry registry ruleIndex entry = readEntry registry ruleIndex entry' := by
  apply Option.ext
  intro field
  rw [readEntry_eq_some, readEntry_eq_some]
  exact alike_loadCborField alike field

end

/- Rules. -/

section
variable {registry : SidRegistry} {ruleIndex : Nat}

theorem checkDuplicateIndexes_eq_ok (fields : List FieldRule) (seen : List Nat) :
    checkDuplicateIndexes ruleIndex seen fields = .ok () ↔
      (fields.map FieldRule.entryIndex).Nodup ∧ ∀ field ∈ fields, field.entryIndex ∉ seen := by
  induction fields generalizing seen with
  | nil => simp [checkDuplicateIndexes]
  | cons field fields ih =>
    rw [checkDuplicateIndexes, reject_eq_ok (invalidField_ne_ok _ _ _), ih, List.map_cons,
      List.nodup_cons]
    constructor
    · rintro ⟨fresh, distinct, later⟩
      refine ⟨⟨?_, distinct⟩, ?_⟩
      · intro again
        obtain ⟨other, member, same⟩ := List.mem_map.mp again
        exact later other member (same ▸ List.mem_cons_self)
      · intro other member
        rcases List.mem_cons.mp member with rfl | further
        · exact fresh
        · exact fun old => later other further (List.mem_cons_of_mem _ old)
    · rintro ⟨⟨apart, distinct⟩, fresh⟩
      refine ⟨fresh field List.mem_cons_self, distinct, ?_⟩
      intro other member again
      rcases List.mem_cons.mp again with same | old
      · exact apart (same ▸ List.mem_map_of_mem member)
      · exact fresh other (List.mem_cons_of_mem _ member) old

theorem normalizeCborFields_eq_ok {fields out : List FieldRule} :
    normalizeCborFields ruleIndex fields = .ok out ↔
      (fields.map FieldRule.entryIndex).Nodup ∧
        fields.insertionSort (fun a b => a.entryIndex ≤ b.entryIndex) = out := by
  rw [normalizeCborFields, bind_eq_ok]
  constructor
  · rintro ⟨⟨⟩, checked, sorted⟩
    exact ⟨((checkDuplicateIndexes_eq_ok fields []).mp checked).1, Except.ok.inj sorted⟩
  · rintro ⟨distinct, rfl⟩
    exact ⟨(), (checkDuplicateIndexes_eq_ok fields []).mpr ⟨distinct, by simp⟩, rfl⟩

/-- The fields of a rule: its entries, read and put in the order of their indexes. -/
theorem loadFields_eq_ok {entries : List CborValue} {out : List FieldRule} :
    (mapIndexed (loadCborField registry ruleIndex) 0 entries >>= normalizeCborFields ruleIndex) =
        .ok out ↔
      Reads (readEntry registry ruleIndex) FieldRule.entryIndex entries out := by
  have reads : ∀ i entry field, loadCborField registry ruleIndex i entry = .ok field ↔
      readEntry registry ruleIndex entry = some field := by
    intro i entry field
    rw [readEntry_eq_some]
    exact alike_loadCborField (EntryAlike.refl entry) field
  simp only [bind_eq_ok, mapIndexed_eq_ok reads, normalizeCborFields_eq_ok]
  exact reads_iff.symm

theorem alike_loadFields {values values' middle : List CborValue}
    (each : List.Forall₂ EntryAlike values middle) (perm : middle.Perm values') :
    Alike (mapIndexed (loadCborField registry ruleIndex) 0 values >>= normalizeCborFields ruleIndex)
      (mapIndexed (loadCborField registry ruleIndex) 0 values' >>=
        normalizeCborFields ruleIndex) := by
  have same : values.map (readEntry registry ruleIndex) =
      middle.map (readEntry registry ruleIndex) := by
    clear perm
    induction each with
    | nil => rfl
    | cons here _ ih => rw [List.map_cons, List.map_cons, readEntry_alike here, ih]
  intro out
  rw [loadFields_eq_ok, loadFields_eq_ok]
  constructor
  · intro reads
    exact (reads.of_map same).of_perm perm
  · intro reads
    exact (reads.of_perm perm.symm).of_map same.symm

/-- The entry list of a rule, loaded. -/
theorem alike_entryList {nature : RuleNature} {rule rule' : CborValue}
    (alike : Option.Rel EntriesAlike (mapValue rule 23) (mapValue rule' 23)) :
    Alike
      (cborEntryValues ruleIndex nature rule >>= fun values =>
        mapIndexed (loadCborField registry ruleIndex) 0 values >>= normalizeCborFields ruleIndex)
      (cborEntryValues ruleIndex nature rule' >>= fun values =>
        mapIndexed (loadCborField registry ruleIndex) 0 values >>=
          normalizeCborFields ruleIndex) := by
  unfold cborEntryValues
  generalize mapValue rule 23 = found at alike ⊢
  generalize mapValue rule' 23 = found' at alike ⊢
  cases alike with
  | none => exact .refl _
  | @some entries entries' alike =>
    unfold EntriesAlike at alike
    split at alike
    · obtain ⟨middle, each, perm⟩ := alike
      exact alike_loadFields each perm
    · subst alike
      exact .refl _

theorem alike_loadCborRule {rule rule' : CborValue} (alike : RuleAlike rule rule') :
    Alike (loadCborRule registry ruleIndex rule) (loadCborRule registry ruleIndex rule') := by
  have same : ∀ key : Int, key ≠ 23 → mapValue rule key = mapValue rule' key := by
    intro key other
    apply AlikeMap.same alike
    rw [if_neg other]
  have required : ∀ key : Int, key ≠ 23 → requiredU64 rule key = requiredU64 rule' key := by
    intro key other
    rw [requiredU64, requiredU64, requiredMapValue, requiredMapValue, same key other]
  have nature : cborRuleNature registry ruleIndex rule = cborRuleNature registry ruleIndex rule' := by
    rw [cborRuleNature, cborRuleNature, same 3 (by decide)]
  have entries : Option.Rel EntriesAlike (mapValue rule 23) (mapValue rule' 23) :=
    AlikeMap.lookup alike 23
  unfold loadCborRule
  rw [required 1 (by decide), required 2 (by decide), nature]
  refine (Alike.refl _).bind fun idLength => (Alike.refl _).bind fun id => ?_
  refine (Alike.refl _).bind fun checked => (Alike.refl _).bind fun nature => ?_
  have loaded : Alike
      (cborEntryValues ruleIndex nature rule >>= fun values =>
        mapIndexed (loadCborField registry ruleIndex) 0 values >>= normalizeCborFields ruleIndex)
      (cborEntryValues ruleIndex nature rule' >>= fun values =>
        mapIndexed (loadCborField registry ruleIndex) 0 values >>=
          normalizeCborFields ruleIndex) := alike_entryList entries
  have whole := loaded.bind fun fields => Alike.refl (.ok (⟨⟨id, idLength⟩, fields, nature⟩ : Rule))
  simpa only [bind_assoc] using whole

/- Documents. -/

theorem alike_requiredArray {envelope envelope' : CborValue}
    (alike : Option.Rel RulesAlike (mapValue envelope 23) (mapValue envelope' 23)) :
    (∃ rules rules', requiredArray envelope 23 = .ok rules ∧ requiredArray envelope' 23 = .ok rules' ∧
        List.Forall₂ RuleAlike rules rules') ∨
      ∃ reason, requiredArray envelope 23 = .error reason ∧
        requiredArray envelope' 23 = .error reason := by
  unfold requiredArray requiredMapValue
  generalize mapValue envelope 23 = found at alike ⊢
  generalize mapValue envelope' 23 = found' at alike ⊢
  cases alike with
  | none => exact .inr ⟨_, rfl, rfl⟩
  | @some list list' alike =>
    unfold RulesAlike at alike
    split at alike
    · exact .inl ⟨_, _, rfl, rfl, alike⟩
    · rename_i other
      subst alike
      cases list with
      | array rules => exact absurd rfl (other rules rules rfl)
      | _ => exact .inr ⟨_, rfl, rfl⟩

theorem alike_fromCbor {root root' : CborValue} (reordered : Reordered root root') :
    Alike (RuleContext.fromCbor root registry) (RuleContext.fromCbor root' registry) := by
  have envelopes : Option.Rel EnvelopeAlike (mapValue root 2574) (mapValue root' 2574) :=
    AlikeMap.lookup reordered 2574
  unfold RuleContext.fromCbor requiredMapValue
  generalize mapValue root 2574 = found at envelopes ⊢
  generalize mapValue root' 2574 = found' at envelopes ⊢
  cases envelopes with
  | none => exact .refl _
  | @some envelope envelope' alike =>
    dsimp only [orElse, ok_bind]
    rcases alike_requiredArray (AlikeMap.lookup alike 23) with ⟨rules, rules', here, there, each⟩ |
      ⟨reason, here, there⟩
    · rw [here, there]
      have loaded : Alike (mapIndexed (loadCborRule registry) 0 rules)
          (mapIndexed (loadCborRule registry) 0 rules') :=
        .mapIndexed (each.imp fun _ _ alike i => alike_loadCborRule alike) 0
      exact loaded.bind fun rules => .refl _
    · rw [here, there]
      exact .refl _

/-- The index and the bytes of a listed value. -/
def readListedBytes (item : CborValue) : Option (Nat × List UInt8) :=
  (readListed item).bind fun listed =>
    (valueToBytes 0 0 listed.2).toOption.map fun bytes => (listed.1, bytes)

/-- The items are the values with their places, in some order. -/
def ListsByIndex (items : List CborValue) (values : List (List UInt8)) : Prop :=
  (items.map readListedBytes).Perm (values.mapIdx fun i bytes => some (i, bytes))

/-- A field has the index of an entry, and a mapping target lists the values of the entry by
    their indexes. -/
structure Stems (entry : CborValue) (field : FieldRule) : Prop where
  index : ∃ place, mapValue entry 1 = some place ∧ valueToU64 place = .ok field.entryIndex
  mapping : ∀ values, field.target = .mapping values →
    ∃ items, mapValue entry 9 = some (.array items) ∧ ListsByIndex items values

theorem listedBytes_eq_ok {order : Nat} {entries : List (Nat × CborValue)}
    {values : List (List UInt8)}
    (read : entries.mapM (fun entry => valueToBytes ruleIndex order entry.2) = .ok values) :
    entries.map (fun entry => (valueToBytes 0 0 entry.2).toOption) = values.map some := by
  induction entries generalizing values with
  | nil =>
    cases read
    rfl
  | cons entry entries ih =>
    rw [List.mapM_cons] at read
    simp only [bind_eq_ok] at read
    obtain ⟨first, here, rest, later, done⟩ := read
    cases done
    have anywhere : ∀ value bytes, valueToBytes ruleIndex order value = .ok bytes →
        valueToBytes 0 0 value = .ok bytes := by
      intro value bytes found
      unfold valueToBytes at found ⊢
      cases value with
      | bytes value => exact found
      | integer integer =>
        dsimp only at found ⊢
        generalize integerToMinimalBytes integer = minimal at found ⊢
        cases minimal with
        | some bytes => exact found
        | none => cases found
      | _ => cases found
    rw [List.map_cons, List.map_cons, anywhere _ _ here, ih later]
    rfl

theorem ByIndex.lists {items : List CborValue} {out : List (Nat × CborValue)}
    (listed : ByIndex items out) {values : List (List UInt8)}
    (read : out.map (fun entry => (valueToBytes 0 0 entry.2).toOption) = values.map some) :
    ListsByIndex items values := by
  have spelled : out.map (fun entry =>
      (valueToBytes 0 0 entry.2).toOption.map fun bytes => (entry.1, bytes)) =
      values.mapIdx fun i bytes => some (i, bytes) := by
    apply List.ext_getElem?
    intro k
    have places := congrArg (fun list => list[k]?) listed.consecutive
    have bytes := congrArg (fun list => list[k]?) read
    simp only [List.getElem?_map] at places bytes
    rw [List.getElem?_map, List.getElem?_mapIdx]
    cases here : out[k]? with
    | none =>
      rw [here] at bytes
      rw [Option.map_eq_none_iff.mp bytes.symm]
      rfl
    | some entry =>
      have inside := (List.getElem?_eq_some_iff.mp here).1
      rw [here, List.getElem?_range inside] at places
      rw [here] at bytes
      obtain ⟨value, placed, same⟩ := Option.map_eq_some_iff.mp bytes.symm
      have value : (valueToBytes 0 0 entry.2).toOption = some value := same.symm
      rw [placed, Option.map_some, Option.map_some, value, Option.map_some,
        show entry.1 = k from Option.some.inj places]
  have perm := listed.reads.perm.map fun found => found.bind fun listed =>
    (valueToBytes 0 0 listed.2).toOption.map fun bytes => (listed.1, bytes)
  rw [List.map_map, List.map_map] at perm
  rw [ListsByIndex, ← spelled]
  exact perm

theorem cborTargetValue_mapping {order : Nat} {list : Option CborValue}
    {matching : MatchingOperator} {action : Cda} {values : List (List UInt8)}
    (loaded : cborTargetValue list matching action ruleIndex order = .ok (.mapping values)) :
    ∃ items, list = some (.array items) ∧ ListsByIndex items values := by
  cases list with
  | none => cases loaded
  | some value =>
    cases value with
    | array items =>
      simp only [cborTargetValue, bind_eq_ok] at loaded
      obtain ⟨out, listed, found, read, loaded⟩ := loaded
      have same : found = values := by
        split at loaded
        · cases loaded
        · split at loaded
          · cases loaded
            rfl
          · split at loaded
            · cases loaded
            · cases loaded
              rfl
      subst same
      exact ⟨items, rfl, (cborTargetEntries_eq_ok.mp listed).lists (listedBytes_eq_ok read)⟩
    | _ => cases loaded

theorem loadCborEntry_stems {order entryIndex : Nat} {entry : CborValue} {name : FieldRef}
    {field : FieldRule} (placed : requiredFieldUsize entry 1 ruleIndex order = .ok entryIndex)
    (loaded : loadCborEntry registry ruleIndex order entry entryIndex name = .ok field) :
    Stems entry field := by
  simp only [loadCborEntry, bind_eq_ok] at loaded
  obtain ⟨_, -, _, -, _, -, _, -, _, -, _, -, _, -, _, -, target, valued, _, -, loaded⟩ := loaded
  cases loaded
  refine ⟨requiredFieldInteger_eq_ok.mp placed, ?_⟩
  rintro values rfl
  exact cborTargetValue_mapping valued

theorem loadCborField_stems {order : Nat} {entry : CborValue} {field : FieldRule}
    (loaded : loadCborField registry ruleIndex order entry = .ok field) : Stems entry field := by
  unfold loadCborField at loaded
  split at loaded
  · simp only [loadCborCoreconfField, bind_eq_ok] at loaded
    obtain ⟨_, placed, _, -, _, -, _, -, loaded⟩ := loaded
    exact loadCborEntry_stems placed loaded
  · simp only [loadCborUniversalOptionField, bind_eq_ok,
      reject_eq_ok (invalidField_ne_ok _ _ _)] at loaded
    obtain ⟨_, placed, _, -, _, -, -, _, -, loaded⟩ := loaded
    exact loadCborEntry_stems placed loaded
  · simp at loaded

/-- The rules of a document. -/
def documentRules (root : CborValue) : List CborValue :=
  match (mapValue root 2574).bind (fun envelope => mapValue envelope 23) with
  | some (.array rules) => rules
  | _ => []

/-- The entries of a rule. -/
def ruleEntries (rule : CborValue) : List CborValue :=
  match mapValue rule 23 with
  | some (.array entries) => entries
  | _ => []

/-- A loaded rule has its entries by increasing index. -/
structure RuleByIndex (ruleValue : CborValue) (rule : Rule) : Prop where
  sorted : rule.fields.Pairwise (fun a b => a.entryIndex < b.entryIndex)
  count : rule.fields.length = (ruleEntries ruleValue).length
  stems : ∀ field ∈ rule.fields, ∃ entry ∈ ruleEntries ruleValue, Stems entry field

theorem loadCborRule_byIndex {ruleValue : CborValue} {rule : Rule}
    (loaded : loadCborRule registry ruleIndex ruleValue = .ok rule) : RuleByIndex ruleValue rule := by
  simp only [loadCborRule, bind_eq_ok] at loaded
  obtain ⟨_, -, _, -, _, -, _, -, entries, listed, found, made, fields, ordered, loaded⟩ := loaded
  cases loaded
  have whole : ruleEntries ruleValue = entries := by
    unfold cborEntryValues at listed
    unfold ruleEntries
    split at listed
    · cases listed
      rename_i same
      rw [same]
    · cases listed
    · rename_i same
      rw [same]
      split at listed <;> cases listed
      rfl
  have reads := loadFields_eq_ok.mp ((bind_eq_ok _ _ _).mpr ⟨found, made, ordered⟩)
  refine ⟨reads.sorted, ?_, ?_⟩
  · rw [whole]
    simpa using reads.perm.length_eq.symm
  · intro field member
    have listed := reads.perm.mem_iff.mpr (List.mem_map_of_mem member)
    obtain ⟨entry, inside, read⟩ := List.mem_map.mp listed
    exact ⟨entry, whole ▸ inside, loadCborField_stems (readEntry_eq_some.mp read)⟩

end

/-- Documents that differ in the order of entries and of listed values are both rejected or load
    to one context, with entries by index and mappings by index from 0 on. -/
theorem cbor_loading_order_free {root root' : CborValue} (reordered : Reordered root root')
    (registry : SidRegistry) :
    (∀ ctx, RuleContext.fromCbor root registry = .ok ctx ↔
        RuleContext.fromCbor root' registry = .ok ctx) ∧
      ∀ ctx, RuleContext.fromCbor root registry = .ok ctx →
        List.Forall₂ RuleByIndex (documentRules root) ctx.rules.rules := by
  refine ⟨alike_fromCbor reordered, fun ctx loaded => ?_⟩
  simp only [RuleContext.fromCbor, bind_eq_ok, orElse_eq_ok (fun _ => fail_ne_ok _ _)] at loaded
  obtain ⟨envelope, found, ruleValues, listed, rules, made, _, -, loaded⟩ := loaded
  cases loaded
  have whole : documentRules root = ruleValues := by
    rw [documentRules, requiredMapValue_eq_ok.mp found, Option.bind_some]
    unfold requiredArray requiredMapValue at listed
    generalize mapValue envelope 23 = list at listed ⊢
    cases list with
    | none => cases listed
    | some list =>
      cases list with
      | array values =>
        cases listed
        rfl
      | _ => cases listed
  rw [whole]
  have each : ∀ (position : Nat) (ruleValue : CborValue) (rule : Rule),
      loadCborRule registry position ruleValue = .ok rule → RuleByIndex ruleValue rule :=
    fun _ _ _ loaded => loadCborRule_byIndex loaded
  exact mapIndexed_forall₂ each made

/- A rule whose mapping is listed backwards. -/

def item (index byte : Int) : CborValue :=
  .map [(.integer 1, .integer index), (.integer 2, .integer byte)]

def versionEntry (items : List CborValue) : CborValue :=
  .map [(.integer 1, .integer 0), (.integer 2, .integer 1), (.integer 5, .integer 4),
    (.integer 7, .integer 2), (.integer 8, .integer 1), (.integer 9, .array items),
    (.integer 12, .integer 3), (.integer 16, .integer 4)]

def mappingRule (items : List CborValue) : CborValue :=
  .map [(.integer 1, .integer 8), (.integer 2, .integer 1),
    (.integer 23, .array [versionEntry items])]

def mappingEnvelope (items : List CborValue) : CborValue :=
  .map [(.integer 23, .array [mappingRule items])]

def mappingDocument (items : List CborValue) : CborValue :=
  .map [(.integer 2574, mappingEnvelope items)]

def mappingRegistry : SidRegistry :=
  .ofItems [⟨1, "fid-ipv6-version"⟩, ⟨2, "di-bidirectional"⟩, ⟨3, "mo-match-mapping"⟩,
    ⟨4, "cda-mapping-sent"⟩]

theorem reordered_mappingDocument {items items' : List CborValue} (same : items.Perm items') :
    Reordered (mappingDocument items) (mappingDocument items') := by
  have entry : EntryAlike (versionEntry items) (versionEntry items') :=
    .cons ⟨rfl, rfl⟩ (.cons ⟨rfl, rfl⟩ (.cons ⟨rfl, rfl⟩ (.cons ⟨rfl, rfl⟩ (.cons ⟨rfl, rfl⟩
      (.cons ⟨rfl, same⟩ (.cons ⟨rfl, rfl⟩ (.cons ⟨rfl, rfl⟩ .nil)))))))
  have entries : EntriesAlike (.array [versionEntry items]) (.array [versionEntry items']) :=
    ⟨[versionEntry items'], .cons entry .nil, List.Perm.refl _⟩
  have rule : RuleAlike (mappingRule items) (mappingRule items') :=
    .cons ⟨rfl, rfl⟩ (.cons ⟨rfl, rfl⟩ (.cons ⟨rfl, entries⟩ .nil))
  have rules : RulesAlike (.array [mappingRule items]) (.array [mappingRule items']) :=
    .cons rule .nil
  have envelope : EnvelopeAlike (mappingEnvelope items) (mappingEnvelope items') :=
    .cons ⟨rfl, rules⟩ .nil
  exact .cons ⟨rfl, envelope⟩ .nil

def mappingField : FieldRule :=
  ⟨.ipv6 (.known .ipv6Version), .fixedBits 4, 1, .bidirectional, .mapping [[6], [4]], .matchMapping,
    .mappingSent, 0⟩

def mappingContext : RuleContext :=
  ⟨⟨[⟨⟨1, 8⟩, [mappingField], .compression⟩], mappingRegistry⟩⟩

theorem mappingContext_made :
    RuleContext.fromCbor (mappingDocument [item 1 4, item 0 6]) mappingRegistry =
      .ok mappingContext := by
  have rules : mapIndexed (loadCborRule mappingRegistry) 0 [mappingRule [item 1 4, item 0 6]] =
      .ok mappingContext.rules.rules := by decide +kernel
  simp only [RuleContext.fromCbor, bind_eq_ok]
  exact ⟨mappingEnvelope [item 1 4, item 0 6], rfl, [mappingRule [item 1 4, item 0 6]], rfl,
    mappingContext.rules.rules, rules, (), by decide +kernel, rfl⟩

theorem cbor_loading_order_free_at_two_values :
    RuleContext.fromCbor (mappingDocument [item 0 6, item 1 4]) mappingRegistry =
      .ok mappingContext :=
  ((cbor_loading_order_free (reordered_mappingDocument (List.Perm.swap _ _ _))
    mappingRegistry).1 mappingContext).mp mappingContext_made

end SchcCore
