import SchcCore.Compress.Step
import SchcCore.Decompress.Engine

/- The residue codec over whole rules: the decoder, entry by entry, stays in step with the
   traversal and reads back the fields that it stored, but for the computed ones. -/
namespace SchcCore
open Outcome BitList FieldStore Stream

/-- Whether an entry with this index is computed. -/
def Rule.computes (rule : Rule) (entryIndex : Nat) : Bool :=
  rule.fields.any (fun entry => entry.entryIndex = entryIndex && entry.action = .compute)

def FieldStore.withoutComputed (fields : FieldStore) (rule : Rule) : FieldStore :=
  fields.filter (fun stored => !rule.computes stored.1.entryIndex)

/-- An entry whose value is determined by its residue and the values sent before it. -/
structure FieldRule.Codable (rule : Rule) (direction : Direction) (entry : FieldRule) : Prop where
  action : entry.field = .syntheticCoapMarker ∨ entry.action = .compute ∨
    entry.action = .valueSent ∨ entry.action = .lsb ∨
    (entry.action = .notSent ∧ entry.matching = .equal ∧ entry.length ≠ .variableBytes ∧
      entry.length ≠ .variableBits)
  previous : ∀ i unit, entry.length = .fromPreviousField i unit →
    ∀ other ∈ rule.active direction, other.entryIndex = i → other.action ≠ .compute

/-- No two entries share an index. -/
def Rule.Indexed (rule : Rule) : Prop :=
  ∀ a ∈ rule.fields, ∀ b ∈ rule.fields, a.entryIndex = b.entryIndex → a = b

/-- The decoder has what the traversal has, but for the computed fields. -/
structure Mirrors (rule : Rule) (direction : Direction) (state : CompressionState)
    (decoded : DecodeState) : Prop where
  sources : ∀ stored ∈ state.fields, ∃ entry ∈ rule.active direction,
    entry.entryIndex = stored.1.entryIndex ∧ entry.field = stored.1.field
  fields : decoded.fields = state.fields.withoutComputed rule
  lengths : decoded.lengths = state.lengths
  scope : decoded.scope = state.scope

theorem mem_active {rule : Rule} {direction : Direction} {entry : FieldRule} :
    entry ∈ rule.active direction ↔ entry ∈ rule.fields ∧ entry.direction.accepts direction := by
  simp [Rule.active]

/- Lookups. -/

theorem findSome?_filter_of_none {α β : Type} {f : α → Option β} {keep : α → Bool} {xs : List α}
    (dropped : ∀ x ∈ xs, keep x = false → f x = none) :
    (xs.filter keep).findSome? f = xs.findSome? f := by
  induction xs with
  | nil => rfl
  | cons x xs ih =>
    have rest := ih fun y member => dropped y (List.mem_cons_of_mem x member)
    by_cases kept : keep x
    · rw [List.filter_cons_of_pos kept, List.findSome?_cons, List.findSome?_cons, rest]
    · rw [List.filter_cons_of_neg kept, List.findSome?_cons,
        dropped x List.mem_cons_self (by simpa using kept), rest]

theorem Rule.computes_iff {rule : Rule} (indexed : rule.Indexed) {entry : FieldRule}
    (listed : entry ∈ rule.fields) : rule.computes entry.entryIndex ↔ entry.action = .compute := by
  simp only [Rule.computes, List.any_eq_true, Bool.and_eq_true, decide_eq_true_eq]
  constructor
  · rintro ⟨other, member, same, computed⟩
    rwa [indexed entry listed other member same.symm]
  · intro computed
    exact ⟨entry, listed, rfl, computed⟩

namespace Mirrors
variable {rule : Rule} {direction : Direction} {state : CompressionState} {decoded : DecodeState}

/-- Fields that are never computed are found alike. -/
theorem firstByFieldScope (mirrors : Mirrors rule direction state decoded)
    (indexed : rule.Indexed) (valid : ∀ entry ∈ rule.fields, entry.Valid) {field : FieldRef}
    (sent : isComputeSupported field = false) (scope : PacketScope) :
    decoded.fields.firstByFieldScope field scope = state.fields.firstByFieldScope field scope := by
  rw [mirrors.fields]
  refine findSome?_filter_of_none fun stored member removed => if_neg ?_
  rintro ⟨same, -⟩
  obtain ⟨entry, active, index, named⟩ := mirrors.sources stored member
  have listed := (mem_active.mp active).1
  rw [← index, Bool.not_eq_false', Rule.computes_iff indexed listed] at removed
  have supported := (valid entry listed).compute removed
  rw [named, same, sent] at supported
  cases supported

theorem byEntryIndex (mirrors : Mirrors rule direction state decoded) (indexed : rule.Indexed)
    {i : Nat} (sent : ∀ other ∈ rule.active direction, other.entryIndex = i →
      other.action ≠ .compute) :
    decoded.fields.byEntryIndex i = state.fields.byEntryIndex i := by
  rw [mirrors.fields]
  refine findSome?_filter_of_none fun stored member removed => if_neg ?_
  intro same
  obtain ⟨entry, active, index, -⟩ := mirrors.sources stored member
  rw [← index, Bool.not_eq_false', Rule.computes_iff indexed (mem_active.mp active).1] at removed
  exact sent entry active (index.trans same) removed

theorem resolve (mirrors : Mirrors rule direction state decoded) (indexed : rule.Indexed)
    {entry : FieldRule} (previous : ∀ i unit, entry.length = .fromPreviousField i unit →
      ∀ other ∈ rule.active direction, other.entryIndex = i → other.action ≠ .compute) :
    decoded.lengths.resolve entry.length decoded.fields =
      state.lengths.resolve entry.length state.fields := by
  rw [mirrors.lengths]
  cases length : entry.length with
  | fromPreviousField i unit =>
    simp only [LengthResolver.resolve, mirrors.byEntryIndex indexed (previous i unit length)]
  | _ => rfl

theorem containsVersion (mirrors : Mirrors rule direction state decoded) (indexed : rule.Indexed)
    (valid : ∀ entry ∈ rule.fields, entry.Valid) :
    decoded.fields.containsFieldScope (.ipv6 (.known .ipv6Version)) .outer =
      state.fields.containsFieldScope (.ipv6 (.known .ipv6Version)) .outer := by
  have same := mirrors.firstByFieldScope indexed valid
    (show isComputeSupported (.ipv6 (.known .ipv6Version)) = false from rfl) .outer
  simp only [containsFieldScope, same]

theorem outerIcmpError (mirrors : Mirrors rule direction state decoded) (indexed : rule.Indexed)
    (valid : ∀ entry ∈ rule.fields, entry.Valid) :
    decoded.fields.outerIcmpError = state.isOuterError := by
  have same := mirrors.firstByFieldScope indexed valid
    (show isComputeSupported (.icmpv6 (.known .icmpv6Type)) = false from rfl) .outer
  rw [FieldStore.outerIcmpError, same]
  rfl

theorem outerNextHeaderIcmp (mirrors : Mirrors rule direction state decoded)
    (indexed : rule.Indexed) (valid : ∀ entry ∈ rule.fields, entry.Valid) :
    decoded.fields.outerNextHeaderIcmp = state.outerNextHeaderIsIcmp := by
  have same := mirrors.firstByFieldScope indexed valid
    (show isComputeSupported (.ipv6 (.known .ipv6NextHeader)) = false from rfl) .outer
  rw [FieldStore.outerNextHeaderIcmp, same]
  rfl

/-- The decoder enters the scope that the traversal settled on. -/
theorem enter (mirrors : Mirrors rule direction state decoded) (indexed : rule.Indexed)
    (valid : ∀ entry ∈ rule.fields, entry.Valid) {field : FieldRef} {scope : PacketScope}
    (settled : scopeForField state field = .ok scope) :
    decoded.enter field = scope ∧ decoded.transportTooEarly scope field = false := by
  have version := mirrors.containsVersion indexed valid
  have error := mirrors.outerIcmpError indexed valid
  have icmp := mirrors.outerNextHeaderIcmp indexed valid
  have transport : isTransportField field = field.isTransport := by cases field <;> rfl
  simp only [DecodeState.enter, DecodeState.transportTooEarly, version, error, icmp, transport,
    mirrors.scope]
  unfold scopeForField at settled
  split at settled
  · rename_i embedded
    cases settled
    simp [embedded]
  · rename_i embedded
    have outer : state.scope = .outer := by
      cases here : state.scope with
      | outer => rfl
      | embedded => exact absurd here embedded
    split at settled
    · rename_i failed
      split at settled
      · rename_i opens
        cases settled
        simp [outer, failed, opens]
      · rename_i stays
        split at settled
        · simp at settled
        · rename_i late
          cases settled
          refine ⟨?_, ?_⟩
          · rw [if_neg]
            · exact outer
            · rintro ⟨-, same, -, present⟩
              exact stays ⟨same, present⟩
          · cases here : field.isTransport
            · simp
            · cases next : state.outerNextHeaderIsIcmp
              · simp
              · exact absurd ⟨here, next⟩ late
    · rename_i quiet
      cases settled
      simp [outer, quiet]

end Mirrors

theorem positionApplies_of_applies {position : Nat} {scope : PacketScope} {field : FieldRef}
    {state : CompressionState} (applies : fieldPositionApplies position scope field state) :
    positionApplies position scope field := by
  unfold fieldPositionApplies at applies
  unfold positionApplies
  split at applies
  · simp [*]
  · rename_i placed
    rw [if_neg placed]
    split at applies
    · rename_i option
      cases field with
      | coapOption number => rfl
      | _ => cases option
    · split
      · rfl
      · cases scope with
        | outer => exact applies
        | embedded =>
          simp only [Bool.and_eq_true] at applies
          exact applies.1

/- One entry. -/

/-- The decoder finds the length that the traversal resolved or announced. -/
theorem reads_decodeFieldLen {entry : FieldRule} {lengths : LengthResolver} {fields : FieldStore}
    {value : FieldValue} (announced : Announced value entry.length)
    (prefixed : entry.length = .variableBytes ∨ entry.length = .variableBits →
      entry.action = .valueSent ∨ entry.action = .lsb)
    (resolved : entry.length ≠ .variableBytes → entry.length ≠ .variableBits →
      lengths.resolve entry.length fields = .ok value.bitLen) :
    Reads (decodeFieldLen entry lengths fields) (lengthPrefix value entry.length) value.bitLen := by
  have counted (length : entry.length = .variableBytes) :
      Reads (decodeFieldLen entry lengths fields) (variableLengthPrefix (value.bitLen / 8))
        value.bitLen := by
    rw [length] at announced
    have whole : value.bitLen / 8 * 8 = value.bitLen := by
      have := announced.1
      omega
    have reads : Reads (readVariableLengthPrefix >>= fun bytes => pure (bytes * 8))
        (variableLengthPrefix (value.bitLen / 8) ++ []) (value.bitLen / 8 * 8) :=
      reads_bind (reads_readVariableLengthPrefix announced.2) (reads_pure _)
    rw [whole, List.append_nil] at reads
    rcases prefixed (.inl length) with action | action
    · simpa only [decodeFieldLen, length, action] using reads
    · simpa only [decodeFieldLen, length, action] using reads
  have bitwise (length : entry.length = .variableBits) :
      Reads (decodeFieldLen entry lengths fields) (variableLengthPrefix value.bitLen)
        value.bitLen := by
    rw [length] at announced
    have reads := reads_readVariableLengthPrefix announced
    rcases prefixed (.inr length) with action | action
    · simpa only [decodeFieldLen, length, action] using reads
    · simpa only [decodeFieldLen, length, action] using reads
  cases length : entry.length with
  | variableBytes => exact counted length
  | variableBits => exact bitwise length
  | _ =>
    have known : Reads (monadLift (lengths.resolve entry.length fields) : BitReader.Read Nat) []
        value.bitLen := reads_lift (resolved (by simp [length]) (by simp [length]))
    simpa only [decodeFieldLen, length, lengthPrefix] using known

theorem reads_readFrom_value (value : FieldValue) :
    Reads (FieldValue.readFrom value.bitLen) value.bits value := by
  have reads := FieldValue.reads_readFrom value.bits
  rwa [value.length_bits, FieldValue.ofBits_bits] at reads

theorem reads_decodeLsb {entry : FieldRule} {value target : FieldValue} {n : Nat}
    (operator : entry.matching = .msb n) (long : n ≤ value.bitLen)
    (targeted : targetAsValue entry.target value.bitLen = .ok (some target))
    (same : value.bits.take n = target.bits.take n) :
    Reads (decodeLsb entry value.bitLen) (value.bits.drop n) value := by
  have width : target.bitLen = value.bitLen := by
    obtain ⟨bytes, -, made⟩ := targetAsValue_some targeted
    exact bitLen_bytesAsValue made
  obtain ⟨front, leading, bits⟩ := target.writeRangeTo_eq BitWriter.new
    (show 0 + n ≤ target.bitLen by omega)
  have matched : lsbTarget entry value.bitLen n = .ok front := by
    rw [lsbTarget, targeted]
    exact leading
  have rest : (value.bits.drop n).length = value.bitLen - n := by simp
  obtain ⟨w, wrote, copied⟩ := BitReader.reads_copyTo front (value.bits.drop n)
  have whole : w.bits = value.bits := by
    rw [wrote, bits, BitWriter.bits_new, List.nil_append, List.drop_zero, ← same,
      List.take_append_drop]
  have length : w.bitLen = value.bitLen := by rw [← w.length_bits, whole, value.length_bits]
  have made := FieldValue.fromBytes_toVec w
  rw [whole, FieldValue.ofBits_bits, length] at made
  rw [rest] at copied
  have short : ¬ n > value.bitLen := by omega
  simp only [decodeLsb, operator, short, ↓reduceIte]
  rw [← List.nil_append (value.bits.drop n)]
  refine reads_bind (reads_lift matched) ?_
  rw [← List.append_nil (value.bits.drop n)]
  exact reads_bind copied (reads_lift made)

/-- A length that is not announced is resolved to that of the value. -/
theorem resolved_taken {direction : Direction} {entry : FieldRule} {packet : List UInt8}
    {state next : CompressionState} {bitLen : Option Nat} {value : FieldValue}
    {matched : MatchResult} {lengths : LengthResolver} {fields : FieldStore}
    (same : lengths.resolve entry.length fields = state.lengths.resolve entry.length state.fields)
    (taken : Taken packet direction entry.branch state bitLen value matched next)
    (notBytes : entry.length ≠ .variableBytes) (notBits : entry.length ≠ .variableBits) :
    lengths.resolve entry.length fields = .ok value.bitLen := by
  obtain ⟨exact, -⟩ := matchEntry_matched taken.entry
  have known : resolveFieldBitLen entry.length state =
      state.lengths.resolve entry.length state.fields >>= fun n => .ok (some n) := by
    unfold resolveFieldBitLen
    split
    · rename_i length; exact absurd length notBytes
    · rename_i length; exact absurd length notBits
    · rfl
  have length := taken.length
  change resolveFieldBitLen entry.length state = _ at length
  rw [known, bind_eq_ok] at length
  obtain ⟨n, resolved, done⟩ := length
  cases done
  rw [same, resolved, exact n rfl]

/-- The decoder reads back the value of a codable entry that the traversal took. -/
theorem reads_taken {rule : Rule} {direction : Direction} {entry : FieldRule}
    {packet : List UInt8} {state next : CompressionState} {bitLen : Option Nat}
    {value : FieldValue} {matched : MatchResult} {lengths : LengthResolver} {fields : FieldStore}
    (provider : Option ExternalValueProvider) (valid : entry.Valid)
    (codable : entry.Codable rule direction) (visible : entry.field ≠ .syntheticCoapMarker)
    (sent : entry.action ≠ .compute)
    (same : lengths.resolve entry.length fields = state.lengths.resolve entry.length state.fields)
    (taken : Taken packet direction entry.branch state bitLen value matched next) :
    ∃ front body, next.residue.bits = state.residue.bits ++ (front ++ body) ∧
      Reads (decodeFieldLen entry lengths fields) front value.bitLen ∧
      ∀ direction', Reads (decodeFieldValue entry value.bitLen direction' provider) body value := by
  obtain ⟨-, own, judged, -, own_msb⟩ := matchEntry_matched taken.entry
  have resolved := resolved_taken same taken
  rcases codable.action with marker | computed | action | action | ⟨action, operator, notBytes, notBits⟩
  · exact absurd marker visible
  · exact absurd computed sent
  · obtain ⟨bits, announced⟩ := writeResidue_valueSent entry.branch action taken.residue
    refine ⟨_, _, bits, reads_decodeFieldLen announced (fun _ => .inl action) resolved, ?_⟩
    intro direction'
    simpa only [decodeFieldValue, action] using reads_readFrom_value value
  · obtain ⟨n, operator⟩ : ∃ n, entry.matching = .msb n := by
      have msb := valid.lsb action
      cases operator : entry.matching with
      | msb n => exact ⟨n, rfl⟩
      | _ => simp [operator, MatchingOperator.isMsb] at msb
    obtain ⟨long, msb, target, targeted, leading⟩ :=
      matchesBranch_msb entry.branch operator judged
    obtain ⟨bits, announced⟩ :=
      writeResidue_lsb entry.branch action (own_msb ▸ msb) taken.residue
    refine ⟨_, _, bits, reads_decodeFieldLen announced (fun _ => .inr action) resolved, ?_⟩
    intro direction'
    simpa only [decodeFieldValue, action] using reads_decodeLsb operator long targeted leading
  · have silent := writeResidue_silent entry.branch (.inl action) taken.residue
    have targeted := matchesBranch_equal entry.branch operator judged
    have announced : Announced value entry.length := by
      cases length : entry.length with
      | variableBytes => exact absurd length notBytes
      | variableBits => exact absurd length notBits
      | _ => trivial
    have none : lengthPrefix value entry.length = [] := by
      cases length : entry.length with
      | variableBytes => exact absurd length notBytes
      | variableBits => exact absurd length notBits
      | _ => rfl
    refine ⟨_, [], ?_, reads_decodeFieldLen announced ?_ resolved, ?_⟩
    · rw [silent, none, List.append_nil, List.append_nil]
    · rintro (length | length)
      · exact absurd length notBytes
      · exact absurd length notBits
    · intro direction'
      have found : notSentValue entry value.bitLen = .ok value := by
        change targetAsValue entry.target value.bitLen = _ at targeted
        rw [notSentValue, targeted]
        rfl
      have reads : Reads (monadLift (notSentValue entry value.bitLen) : BitReader.Read FieldValue)
          [] value := reads_lift found
      simpa only [decodeFieldValue, action] using reads

/-- The entry's own field is the one stored for it. -/
theorem Mirrors.stored {rule : Rule} {direction : Direction} {entry : FieldRule}
    {packet : List UInt8} {state next : CompressionState} {decoded : DecodeState}
    {bitLen : Option Nat} {value : FieldValue} {matched : MatchResult}
    (mirrors : Mirrors rule direction state decoded) (listed : entry ∈ rule.active direction)
    (taken : Taken packet direction entry.branch state bitLen value matched next) :
    ∀ stored ∈ next.fields, ∃ entry ∈ rule.active direction,
      entry.entryIndex = stored.1.entryIndex ∧ entry.field = stored.1.field := by
  intro stored member
  rw [taken.fields] at member
  rcases List.mem_append.mp member with old | new
  · exact mirrors.sources stored old
  · rw [List.mem_singleton] at new
    subst new
    exact ⟨entry, listed, rfl, rfl⟩

/-- A computed entry leaves neither bits nor a field for the decoder. -/
theorem Mirrors.computed {rule : Rule} {direction : Direction} {entry : FieldRule}
    {packet : List UInt8} {state next : CompressionState} {decoded : DecodeState}
    {bitLen : Option Nat} {value : FieldValue} {matched : MatchResult}
    (mirrors : Mirrors rule direction state decoded) (indexed : rule.Indexed)
    (valid : ∀ entry ∈ rule.fields, entry.Valid) (listed : entry ∈ rule.active direction)
    (computed : entry.action = .compute)
    (taken : Taken packet direction entry.branch state bitLen value matched next) :
    Mirrors rule direction next decoded := by
  have member := (mem_active.mp listed).1
  have supported := (valid entry member).compute computed
  have dropped := (Rule.computes_iff indexed member).mpr computed
  have other : entry.field ≠ .ipv6 (.known .ipv6Version) := by
    intro version
    rw [version] at supported
    cases supported
  refine ⟨mirrors.stored listed taken, ?_, ?_, ?_⟩
  · rw [taken.fields, mirrors.fields, FieldStore.insert, withoutComputed, withoutComputed,
      List.filter_append]
    simp [FieldRule.branch, dropped]
  · have lengths := taken.lengths
    have notTkl : entry.field ≠ .coap (.known .coapTkl) := by
      intro tkl
      rw [tkl] at supported
      cases supported
    simp only [updateLengths, FieldRule.branch, notTkl, ↓reduceIte, Except.ok.injEq] at lengths
    rw [mirrors.lengths, lengths]
  · have entered := (mirrors.enter indexed valid taken.scope).1
    rw [← entered, DecodeState.enter, if_neg]
    rintro ⟨-, same, -⟩
    exact other same

/-- The decoder reads back the value that the traversal took for an entry, from the bits that it
    wrote. -/
def ReadBack (entry : FieldRule) (direction : Direction) (provider : Option ExternalValueProvider)
    (decoded : DecodeState) (state next : CompressionState) (value : FieldValue) : Prop :=
  ∃ n front body, next.residue.bits = state.residue.bits ++ (front ++ body) ∧
    Reads (decodeFieldLen entry decoded.lengths decoded.fields) front n ∧
    Reads (decodeFieldValue entry n
      (if next.scope = .embedded then reverseDirection direction else direction) provider) body value

/-- One entry of a traversal is one round of the decoder. -/
theorem Mirrors.step_back {rule : Rule} {direction : Direction} {entry : FieldRule}
    {packet : List UInt8} {state next : CompressionState} {decoded : DecodeState}
    (provider : Option ExternalValueProvider) (mirrors : Mirrors rule direction state decoded)
    (indexed : rule.Indexed) (valid : ∀ entry ∈ rule.fields, entry.Valid)
    (listed : entry ∈ rule.active direction)
    (readBack : ∀ bitLen value matched, entry.field ≠ .syntheticCoapMarker →
      entry.action ≠ .compute → Taken packet direction entry.branch state bitLen value matched next →
        ReadBack entry direction provider decoded state next value)
    (took : traverseBranch packet direction entry.branch state = .ok (some next)) :
    ∃ bits decoded', next.residue.bits = state.residue.bits ++ bits ∧
      Reads (decodeField entry direction provider decoded) bits decoded' ∧
      Mirrors rule direction next decoded' := by
  rcases traverseBranch_some.mp took with ⟨marker, rfl⟩ | ⟨visible, bitLen, value, matched, taken⟩
  · change entry.field = _ at marker
    refine ⟨[], decoded, by simp, ?_, mirrors⟩
    rw [decodeField, if_pos marker]
    exact reads_pure decoded
  change entry.field ≠ _ at visible
  by_cases computed : entry.action = .compute
  · have silent := writeResidue_silent entry.branch (.inr computed) taken.residue
    refine ⟨[], decoded, by rw [silent, List.append_nil], ?_,
      mirrors.computed indexed valid listed computed taken⟩
    rw [decodeField, if_neg visible, if_pos computed]
    exact reads_pure decoded
  have member := (mem_active.mp listed).1
  obtain ⟨n, front, body, bits, readsLength, readsValue⟩ :=
    readBack bitLen value matched visible computed taken
  obtain ⟨entered, early⟩ := mirrors.enter indexed valid taken.scope
  have applies := positionApplies_of_applies taken.applies
  have updated : decodedLengths decoded.lengths entry.field value = .ok next.lengths := by
    rw [mirrors.lengths]
    exact taken.lengths
  let key : FieldKey := ⟨entry.field, entry.fieldPosition, entry.entryIndex, next.scope⟩
  refine ⟨front ++ body, ⟨decoded.fields.insert key value, next.lengths, next.scope⟩, bits, ?_, ?_⟩
  · change decoded.enter entry.field = _ at entered
    change positionApplies entry.fieldPosition _ entry.field = _ at applies
    change decoded.transportTooEarly _ entry.field = _ at early
    rw [decodeField, if_neg visible, if_neg computed]
    simp only [entered, early, applies, Bool.false_eq_true, not_true_eq_false, ↓reduceIte]
    rw [decodeEntry]
    refine reads_bind readsLength ?_
    rw [← List.append_nil body]
    refine reads_bind readsValue ?_
    rw [← List.nil_append ([] : List Bool)]
    exact reads_bind (reads_lift updated) (reads_pure _)
  · have kept : rule.computes entry.entryIndex = false := by
      simpa using (Rule.computes_iff indexed member).not.mpr computed
    refine ⟨mirrors.stored listed taken, ?_, rfl, rfl⟩
    rw [taken.fields, mirrors.fields, FieldStore.insert, FieldStore.insert, withoutComputed,
      withoutComputed, List.filter_append]
    simp [FieldRule.branch, kept, key]

/- All entries. -/

/-- What a run has stored stays in the store. -/
theorem run_keeps {packet : List UInt8} {direction : Direction} {entries : List FieldRule}
    {state last : CompressionState}
    (ran : runEntries packet direction entries state = .ok (some last)) :
    ∀ stored ∈ state.fields, stored ∈ last.fields := by
  induction entries generalizing state with
  | nil =>
    cases ran
    exact fun _ member => member
  | cons entry entries ih =>
    obtain ⟨next, first, rest⟩ := runEntries_cons.mp ran
    intro stored member
    apply ih rest
    unfold advance at first
    split at first
    · cases first
      exact member
    · rcases traverseBranch_some.mp first with ⟨-, rfl⟩ | ⟨-, bitLen, value, matched, taken⟩
      · exact member
      · rw [taken.fields]
        exact List.mem_append_left _ member

/-- A run of the entries is read back by the decoder, whatever bits follow, when each entry is. -/
theorem Mirrors.run_back {rule : Rule} {direction : Direction} {packet : List UInt8}
    {provider : Option ExternalValueProvider} (indexed : rule.Indexed)
    (valid : ∀ entry ∈ rule.fields, entry.Valid)
    {entries : List FieldRule} (inside : ∀ entry ∈ entries, entry ∈ rule.fields)
    {state last : CompressionState} {decoded : DecodeState}
    (readBack : ∀ entry ∈ rule.active direction, ∀ state next decoded bitLen value matched,
      entry.field ≠ .syntheticCoapMarker → entry.action ≠ .compute →
        Mirrors rule direction state decoded →
        Taken packet direction entry.branch state bitLen value matched next →
        (∀ stored ∈ next.fields, stored ∈ last.fields) →
          ReadBack entry direction provider decoded state next value)
    (mirrors : Mirrors rule direction state decoded)
    (ran : runEntries packet direction entries state = .ok (some last)) :
    ∃ bits decoded', last.residue.bits = state.residue.bits ++ bits ∧
      Reads (decodeFieldList direction provider
        (entries.filter (fun entry => entry.direction.accepts direction)) decoded) bits decoded' ∧
      Mirrors rule direction last decoded' := by
  induction entries generalizing state decoded with
  | nil =>
    cases ran
    exact ⟨[], decoded, by simp, reads_pure decoded, mirrors⟩
  | cons entry entries ih =>
    obtain ⟨next, first, rest⟩ := runEntries_cons.mp ran
    have later := fun other member => inside other (List.mem_cons_of_mem entry member)
    by_cases active : entry.direction.accepts direction
    · rw [advance, if_neg (by simpa using active)] at first
      have listed := mem_active.mpr ⟨inside entry List.mem_cons_self, active⟩
      have own : ∀ bitLen value matched, entry.field ≠ .syntheticCoapMarker →
          entry.action ≠ .compute →
          Taken packet direction entry.branch state bitLen value matched next →
            ReadBack entry direction provider decoded state next value := by
        intro bitLen value matched visible sent taken
        exact readBack entry listed state next decoded bitLen value matched visible sent mirrors taken
          (run_keeps rest)
      obtain ⟨bits, middle, wrote, reads, mirrors'⟩ :=
        mirrors.step_back provider indexed valid listed own first
      obtain ⟨bits', decoded', wrote', reads', mirrors''⟩ := ih later mirrors' rest
      refine ⟨bits ++ bits', decoded', by rw [wrote', wrote, List.append_assoc], ?_, mirrors''⟩
      rw [List.filter_cons, if_pos active, decodeFieldList]
      exact reads_bind reads reads'
    · rw [advance, if_pos active] at first
      cases first
      rw [List.filter_cons, if_neg active]
      exact ih later mirrors rest

/-- A run of codable entries is read back by the decoder, whatever bits follow. -/
theorem Mirrors.run {rule : Rule} {direction : Direction} {packet : List UInt8}
    (provider : Option ExternalValueProvider) (indexed : rule.Indexed)
    (valid : ∀ entry ∈ rule.fields, entry.Valid)
    (codable : ∀ entry ∈ rule.active direction, entry.Codable rule direction)
    {entries : List FieldRule} (inside : ∀ entry ∈ entries, entry ∈ rule.fields)
    {state last : CompressionState} {decoded : DecodeState}
    (mirrors : Mirrors rule direction state decoded)
    (ran : runEntries packet direction entries state = .ok (some last)) :
    ∃ bits decoded', last.residue.bits = state.residue.bits ++ bits ∧
      Reads (decodeFieldList direction provider
        (entries.filter (fun entry => entry.direction.accepts direction)) decoded) bits decoded' ∧
      Mirrors rule direction last decoded' := by
  apply mirrors.run_back indexed valid inside _ ran
  intro entry listed state next decoded bitLen value matched visible sent mirrors taken _
  obtain ⟨front, body, bits, readsLength, readsValue⟩ := reads_taken provider
    (valid entry (mem_active.mp listed).1) (codable entry listed) visible sent
    (mirrors.resolve indexed (codable entry listed).previous) taken
  exact ⟨_, front, body, bits, readsLength, readsValue _⟩

theorem Mirrors.initial (rule : Rule) (direction : Direction) :
    Mirrors rule direction .initial .initial :=
  ⟨by simp [CompressionState.initial], rfl, rfl, rfl⟩

/-- Entries numbered by their place have indices of their own. -/
theorem Rule.indexed_of_places {rule : Rule}
    (places : ∀ k (h : k < rule.fields.length), rule.fields[k].entryIndex = k) : rule.Indexed := by
  intro a memberA b memberB same
  obtain ⟨i, hi, rfl⟩ := List.mem_iff_getElem.mp memberA
  obtain ⟨j, hj, rfl⟩ := List.mem_iff_getElem.mp memberB
  rw [places i hi, places j hj] at same
  subst same
  rfl

/-- Where the traversal for a single rule arrives at its leaf, the decoder reads the residue
    back to the bit and recovers the stored fields but for the computed ones. -/
theorem residue_decodes_exactly {file : RuleFile} {registry : SidRegistry} {ctx : RuleContext}
    (loaded : RuleContext.fromJson file registry = .ok ctx) {rule : Rule}
    (single : ctx.rules.rules = [rule]) {c : Compressor} (made : Compressor.new ctx = .ok c)
    {direction : Direction}
    (codable : ∀ entry ∈ rule.active direction, entry.Codable rule direction)
    {packet : List UInt8} {path : List FieldRule} {j : Nat} {last : CompressionState} {node : Node}
    (visits : c.Visits packet direction 0 .initial path j last)
    (there : c.tree.nodes[j]? = some node) {k : Nat} (leaf : node.ruleOrder = some k)
    (provider : Option ExternalValueProvider) {reader : BitReader} {further : List Bool}
    (bits : reader.unread = last.residue.bits ++ further) :
    decodeFields rule direction provider reader =
      .ok (last.fields.withoutComputed rule, reader.skip last.residue.bitLen) := by
  obtain ⟨context, built⟩ := Compressor.new_built made
  rw [← context] at built
  obtain ⟨ended, stands, -, -, ran⟩ := visits.at_leaf built there leaf
  have member : rule ∈ ctx.rules.rules := by simp [single]
  have same : ended = rule := by
    have listed := List.mem_of_getElem? stands.placed
    rw [context, single] at listed
    exact List.mem_singleton.mp listed
  subst same
  rw [context, single, Rule.lent_alone] at ran
  have valid := ((RuleContext.Loaded.json file registry loaded).valid.rules ended member).fields
  obtain ⟨spent, decoded, wrote, reads, mirrors⟩ := (Mirrors.initial ended direction).run provider
    (Rule.indexed_of_places (fromJson_rule loaded member)) valid codable (fun _ inside => inside) ran
  have residue : last.residue.bits = spent := by simpa [CompressionState.initial] using wrote
  have length : spent.length = last.residue.bitLen := by rw [← residue, last.residue.length_bits]
  have here : spent <+: Cursor.rest reader := by
    change spent <+: reader.unread
    rw [bits, residue]
    exact List.prefix_append _ _
  rw [decodeFields, bind_run]
  change (decodeFieldList direction provider (ended.active direction) .initial reader >>= _) = _
  rw [show ended.active direction = ended.fields.filter
    (fun entry => entry.direction.accepts direction) from rfl, reads reader here, length]
  rw [← mirrors.fields]
  rfl

/- A rule that sends the low half of the traffic class and the whole hop limit. -/

def hopFile : RuleFile :=
  ⟨[⟨5, 8, none,
    [⟨"fid-ipv6-trafficclass", some 8, none, 1, "bi", .string "10", "msb(4)", "lsb"⟩,
      ⟨"fid-ipv6-payload-length", some 16, none, 1, "up", .null, "ignore", "compute"⟩,
      ⟨"fid-ipv6-hoplimit", some 8, none, 1, "bi", .null, "ignore", "value-sent"⟩]⟩]⟩

def hopRegistry : SidRegistry :=
  .ofItems [⟨1, "fid-ipv6-trafficclass"⟩, ⟨2, "fid-ipv6-payload-length"⟩, ⟨3, "fid-ipv6-hoplimit"⟩,
    ⟨4, "di-bidirectional"⟩, ⟨5, "di-up"⟩, ⟨6, "mo-msb"⟩, ⟨7, "mo-ignore"⟩, ⟨8, "cda-lsb"⟩,
    ⟨9, "cda-compute"⟩, ⟨10, "cda-value-sent"⟩]

def hopRule : Rule :=
  ⟨⟨5, 8⟩,
    [⟨.ipv6 (.known .ipv6TrafficClass), .fixedBits 8, 1, .bidirectional, .bytes [0x10], .msb 4,
        .lsb, 0⟩,
      ⟨.ipv6 (.known .ipv6PayloadLength), .fixedBits 16, 1, .up, .none, .ignore, .compute, 1⟩,
      ⟨.ipv6 (.known .ipv6HopLimit), .fixedBits 8, 1, .bidirectional, .none, .ignore, .valueSent, 2⟩],
    .compression⟩

def hopContext : RuleContext := ⟨⟨[hopRule], hopRegistry⟩⟩

theorem hopContext_fromJson : RuleContext.fromJson hopFile hopRegistry = .ok hopContext := by
  have rules : mapIndexed (loadJsonRule hopRegistry) 0 hopFile.rules = .ok [hopRule] := by
    decide +kernel
  rw [RuleContext.fromJson, rules]
  rfl

/-- An IPv6 header with traffic class 0x1a and hop limit 0x40. -/
def hopPacket : List UInt8 := [0x61, 0xa0, 0, 0, 0, 0, 59, 0x40] ++ List.replicate 32 0

/-- What the traversal holds at the leaf: twelve bits and three fields. -/
def hopState : CompressionState :=
  ⟨⟨[0xa4, 0x00], 12, rfl, rfl⟩,
    [(⟨.ipv6 (.known .ipv6TrafficClass), 1, 0, .outer⟩, ⟨[0x1a], 8, rfl, rfl⟩),
      (⟨.ipv6 (.known .ipv6PayloadLength), 1, 1, .outer⟩, ⟨[0, 0], 16, rfl, rfl⟩),
      (⟨.ipv6 (.known .ipv6HopLimit), 1, 2, .outer⟩, ⟨[0x40], 8, rfl, rfl⟩)],
    ⟨none⟩, [], .outer⟩

theorem residue_decodes_exactly_at_hop_limit :
    decodeFields hopRule .up none (BitReader.new [0xa4, 0x0f]) =
      .ok (hopState.fields.withoutComputed hopRule, (BitReader.new [0xa4, 0x0f]).skip 12) := by
  have ran : runEntries hopPacket .up (hopRule.lent [hopRule]) .initial = .ok (some hopState) := by
    decide +kernel
  have codable : ∀ entry ∈ hopRule.active .up, entry.Codable hopRule .up := by
    intro entry member
    have fixed : ∀ entry ∈ hopRule.fields, (∃ bits, entry.length = .fixedBits bits) ∧
        (entry.action = .compute ∨ entry.action = .valueSent ∨ entry.action = .lsb) := by
      simp [hopRule]
    obtain ⟨⟨bits, length⟩, action⟩ := fixed entry (mem_active.mp member).1
    constructor
    · rcases action with computed | sent | low
      · exact .inr (.inl computed)
      · exact .inr (.inr (.inl sent))
      · exact .inr (.inr (.inr (.inl low)))
    · intro i unit previous
      rw [length] at previous
      cases previous
  obtain ⟨c, made⟩ := Compressor.new_total hopContext
  obtain ⟨context, built⟩ := Compressor.new_built made
  have fit : ∀ rule ∈ c.context.rules.rules, rule.id.Fits := by
    rw [context]
    exact fun rule member => ((RuleContext.Loaded.json _ _ hopContext_fromJson).valid.rules rule member).id
  rw [← context] at built
  have listed : (0, hopRule) ∈ orderedRules c.context.rules.rules := by
    rw [context]
    exact List.mem_cons_self
  obtain ⟨j, height, members, visits, ended, -, inside⟩ := Compressor.visits_of_run fit
    (show Built c.tree.nodes _ ([] : List FieldRule).length 0 _ from built) (AtNode.root _) listed
    (Nat.zero_add _) (by rw [context]; exact ran)
  cases height with
  | zero => exact absurd ended id
  | succ height =>
    obtain ⟨branches, groups, there, -, -⟩ := ended
    obtain ⟨kept, leaf⟩ := leafAt_isSome inside rfl
    have order : (leafNode members hopRule.fields.length branches).ruleOrder = some kept.1 := by
      rw [leafNode, leaf]
      rfl
    exact residue_decodes_exactly hopContext_fromJson rfl made codable visits there order none
      (show _ = _ ++ [true, true, true, true] by decide +kernel)

end SchcCore
