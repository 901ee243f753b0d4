import SchcCore.Compress.Sharing
import SchcCore.Roundtrip.Covered
import SchcCore.Roundtrip.Targets
import SchcCore.Rule.Reordered

/- The residue of a rule with entries of every kind. What does not travel whole comes from the
   target, from a table or from outside, and the receiver decodes the fields that the sender
   stored where each of these has the value that was stored. -/
namespace SchcCore
open Outcome BitList FieldStore Stream

/- One entry. -/

/-- What the receiver has for an entry is the value that the sender stored. A value that is sent
    or computed makes no demand. -/
structure FieldRule.Restores (direction : Direction) (provider : Option ExternalValueProvider)
    (entry : FieldRule) (scope : PacketScope) (value : FieldValue) : Prop where
  target : entry.action = .notSent → targetAsValue entry.target value.bitLen = .ok (some value)
  whole : entry.action = .notSent →
    entry.length = .variableBytes ∨ entry.length = .variableBits →
      ∀ bytes, entry.target = .bytes bytes → value.bitLen = 8 * bytes.length
  mapped : entry.action = .mappingSent → ∀ values, entry.target = .mapping values →
    ∀ (i : Nat) bytes, values[i]? = some bytes → denotes value bytes →
      (∀ (j : Nat) other, j < i → values[j]? = some other → ¬ denotes value other) →
      value.bitLen = 8 * bytes.length
  supplied : entry.action = .deviceIid ∨ entry.action = .appIid →
    entry.length ≠ .variableBytes ∧ entry.length ≠ .variableBits ∧
      externalValue entry value.bitLen (scope.orient direction) provider = .ok value

section
variable {direction : Direction} {entry : FieldRule} {packet : List UInt8}
  {state next : CompressionState} {bitLen : Option Nat} {value : FieldValue}
  {matched : MatchResult} {decoded : DecodeState} {provider : Option ExternalValueProvider}

/-- Only a table selects an index. -/
theorem matchMapping_of_index {branch : Branch} {own : MatchResult} {i : Nat}
    (accepted : matchesBranch value branch = .ok (some own)) (selected : own.mappingIndex = some i) :
    branch.matching = .matchMapping := by
  cases operator : branch.matching with
  | matchMapping => rfl
  | equal =>
    simp only [matchesBranch, operator, bind_eq_ok] at accepted
    obtain ⟨target, -, done⟩ := accepted
    split at done <;> cases done
    cases selected
  | ignore =>
    simp only [matchesBranch, operator] at accepted
    cases accepted
    cases selected
  | msb n =>
    simp only [matchesBranch, operator] at accepted
    split at accepted
    · cases accepted
    · rw [bind_eq_ok] at accepted
      obtain ⟨target, -, done⟩ := accepted
      cases target with
      | none => cases done
      | some target =>
        dsimp only at done
        rw [bind_eq_ok] at done
        obtain ⟨same, -, done⟩ := done
        cases same <;> cases done
        cases selected

/-- What a table entry writes is the index of the first denoting value. -/
theorem writeResidue_mappingSent {branch : Branch} {writer w : BitWriter}
    (action : branch.action = .mappingSent)
    (wrote : writeResidue writer value branch matched = .ok w) :
    ∃ i values, matched.mappingIndex = some i ∧ branch.target = .mapping values ∧
      (if mappingIndexBits values.length = 0 then .ok writer
        else writer.writeBits i (mappingIndexBits values.length)) = .ok w := by
  simp only [writeResidue, action] at wrote
  cases index : matched.mappingIndex with
  | none =>
    rw [index] at wrote
    cases wrote
  | some i =>
    rw [index] at wrote
    cases target : branch.target with
    | mapping values =>
      rw [target] at wrote
      exact ⟨i, values, rfl, rfl, wrote⟩
    | _ =>
      rw [target] at wrote
      cases wrote

theorem readBack_silent {n : Nat}
    (silent : entry.action = .notSent ∨ entry.action = .deviceIid ∨ entry.action = .appIid)
    (taken : Taken packet direction entry.branch state bitLen value matched next)
    (length : Reads (decodeFieldLen entry decoded.lengths decoded.fields) [] n)
    (read : Reads (decodeFieldValue entry n (next.scope.orient direction) provider) [] value) :
    ReadBack entry direction provider decoded state next value := by
  have same : state.residue = next.residue := by
    have wrote := taken.residue
    rcases silent with action | action | action
    all_goals
      have action : entry.branch.action = _ := action
      simp only [writeResidue, action] at wrote
      exact Except.ok.inj wrote
  refine ⟨n, [], [], by rw [same, List.append_nil, List.append_nil], length, ?_⟩
  rw [orient_eq]
  exact read

/-- A length that is not announced is decoded to that of the value. -/
theorem reads_resolved
    (same : decoded.lengths.resolve entry.length decoded.fields =
      state.lengths.resolve entry.length state.fields)
    (taken : Taken packet direction entry.branch state bitLen value matched next)
    (notBytes : entry.length ≠ .variableBytes) (notBits : entry.length ≠ .variableBits) :
    Reads (decodeFieldLen entry decoded.lengths decoded.fields) [] value.bitLen := by
  have resolved := resolved_taken same taken notBytes notBits
  have decodes : decodeFieldLen entry decoded.lengths decoded.fields =
      monadLift (decoded.lengths.resolve entry.length decoded.fields) := by
    cases length : entry.length with
    | variableBytes => exact absurd length notBytes
    | variableBits => exact absurd length notBits
    | _ => simp only [decodeFieldLen, length]
  rw [decodes]
  exact reads_lift resolved

theorem readBack_notSent (action : entry.action = .notSent)
    (restores : entry.Restores direction provider next.scope value)
    (same : decoded.lengths.resolve entry.length decoded.fields =
      state.lengths.resolve entry.length state.fields)
    (taken : Taken packet direction entry.branch state bitLen value matched next) :
    ReadBack entry direction provider decoded state next value := by
  have targeted := restores.target action
  have value_read : Reads (decodeFieldValue entry value.bitLen (next.scope.orient direction) provider)
      [] value := by
    have found : notSentValue entry value.bitLen = .ok value := by
      rw [notSentValue, targeted]
      rfl
    simpa only [decodeFieldValue, action] using reads_lift found
  by_cases unsized : entry.length = .variableBytes ∨ entry.length = .variableBits
  · obtain ⟨bytes, target, -⟩ := targetAsValue_some targeted
    have length : Reads (decodeFieldLen entry decoded.lengths decoded.fields) [] value.bitLen := by
      have known : notSentTargetBitLen entry = .ok value.bitLen := by
        rw [notSentTargetBitLen, target, restores.whole action unsized bytes target, Nat.mul_comm]
      rcases unsized with unsized | unsized
      · simpa only [decodeFieldLen, unsized, action] using reads_lift known
      · simpa only [decodeFieldLen, unsized, action] using reads_lift known
    exact readBack_silent (.inl action) taken length value_read
  · obtain ⟨notBytes, notBits⟩ := not_or.mp unsized
    exact readBack_silent (.inl action) taken (reads_resolved same taken notBytes notBits) value_read

theorem readBack_supplied (action : entry.action = .deviceIid ∨ entry.action = .appIid)
    (restores : entry.Restores direction provider next.scope value)
    (same : decoded.lengths.resolve entry.length decoded.fields =
      state.lengths.resolve entry.length state.fields)
    (taken : Taken packet direction entry.branch state bitLen value matched next) :
    ReadBack entry direction provider decoded state next value := by
  obtain ⟨notBytes, notBits, answered⟩ := restores.supplied action
  have read : Reads (decodeFieldValue entry value.bitLen (next.scope.orient direction) provider)
      [] value := by
    rcases action with action | action
    · simpa only [decodeFieldValue, action] using reads_lift answered
    · simpa only [decodeFieldValue, action] using reads_lift answered
  exact readBack_silent (.inr action) taken (reads_resolved same taken notBytes notBits) read

theorem readBack_mappingSent (action : entry.action = .mappingSent)
    (restores : entry.Restores direction provider next.scope value)
    (same : decoded.lengths.resolve entry.length decoded.fields =
      state.lengths.resolve entry.length state.fields)
    (taken : Taken packet direction entry.branch state bitLen value matched next) :
    ReadBack entry direction provider decoded state next value := by
  obtain ⟨-, own, judged, ownIndex, -⟩ := matchEntry_matched taken.entry
  obtain ⟨index, values, selected, target, wrote⟩ := writeResidue_mappingSent action taken.residue
  have operator := matchMapping_of_index judged (ownIndex.trans selected)
  obtain ⟨i, bytes, placed, hit, rfl, first⟩ := matchesBranch_mapping operator target judged
  cases ownIndex.trans selected
  obtain ⟨bits, table⟩ := reads_mappingIndex placed wrote
  have read : bytesAsValue bytes value.bitLen = .ok value := by simpa [denotes] using hit
  -- The table entry is as long as the value, so it stands for the value at its own length.
  have exact := (eq_ofBytes_iff read).mpr (restores.mapped action values target _ bytes placed hit first)
  obtain ⟨n, length⟩ : ∃ n, Reads (decodeFieldLen entry decoded.lengths decoded.fields) [] n := by
    rcases decodeFieldLen_mappingSent decoded.lengths decoded.fields action with
      ⟨-, zero⟩ | ⟨⟨notBytes, notBits⟩, -⟩
    · exact ⟨0, by rw [zero]; exact reads_pure 0⟩
    · exact ⟨_, reads_resolved same taken notBytes notBits⟩
  have target : entry.target = .mapping values := target
  refine ⟨n, [], _, by rw [List.nil_append]; exact bits, length, ?_⟩
  rw [exact]
  simpa only [decodeFieldValue, action, target] using table

/-- Whatever the action of an entry, its value is read back where it is restored. -/
theorem readBack_of_restores {rule : Rule} (valid : entry.Valid)
    (visible : entry.field ≠ .syntheticCoapMarker) (sent : entry.action ≠ .compute)
    (previous : ∀ i unit, entry.length = .fromPreviousField i unit →
      ∀ other ∈ rule.active direction, other.entryIndex = i → other.action ≠ .compute)
    (restores : entry.Restores direction provider next.scope value)
    (same : decoded.lengths.resolve entry.length decoded.fields =
      state.lengths.resolve entry.length state.fields)
    (taken : Taken packet direction entry.branch state bitLen value matched next) :
    ReadBack entry direction provider decoded state next value := by
  have travels (action : entry.action = .valueSent ∨ entry.action = .lsb) :
      ReadBack entry direction provider decoded state next value := by
    have codable : entry.Codable rule direction := ⟨by tauto, previous⟩
    obtain ⟨front, body, bits, length, read⟩ :=
      reads_taken provider valid codable visible sent same taken
    exact ⟨_, front, body, bits, length, read _⟩
  cases action : entry.action with
  | valueSent => exact travels (.inl action)
  | lsb => exact travels (.inr action)
  | notSent => exact readBack_notSent action restores same taken
  | mappingSent => exact readBack_mappingSent action restores same taken
  | deviceIid => exact readBack_supplied (.inl action) restores same taken
  | appIid => exact readBack_supplied (.inr action) restores same taken
  | compute => exact absurd action sent

end
/- Whole rules. -/

/-- Every stored field is restored by its entry, and no length refers to a field that is
    computed. -/
structure Rule.Restores (rule : Rule) (direction : Direction)
    (provider : Option ExternalValueProvider) (fields : FieldStore) : Prop where
  previous : ∀ entry ∈ rule.active direction, ∀ i unit,
    entry.length = .fromPreviousField i unit →
      ∀ other ∈ rule.active direction, other.entryIndex = i → other.action ≠ .compute
  values : ∀ stored ∈ fields, ∀ entry ∈ rule.active direction,
    entry.entryIndex = stored.1.entryIndex →
      entry.Restores direction provider stored.1.scope stored.2

theorem Rule.indexed_of_sorted {rule : Rule}
    (sorted : rule.fields.Pairwise (fun a b => a.entryIndex < b.entryIndex)) : rule.Indexed := by
  intro a memberA b memberB same
  obtain ⟨i, hi, rfl⟩ := List.mem_iff_getElem.mp memberA
  obtain ⟨j, hj, rfl⟩ := List.mem_iff_getElem.mp memberB
  have below := List.pairwise_iff_getElem.mp sorted
  rcases Nat.lt_trichotomy i j with less | rfl | more
  · exact absurd same (Nat.ne_of_lt (below i j hi hj less))
  · rfl
  · exact absurd same.symm (Nat.ne_of_lt (below j i hj hi more))

/-- A loaded rule numbers its entries apart, whichever document it came from. -/
theorem RuleContext.Loaded.indexed {ctx : RuleContext} (loaded : ctx.Loaded) {rule : Rule}
    (member : rule ∈ ctx.rules.rules) : rule.Indexed := by
  cases loaded with
  | json file registry loaded => exact Rule.indexed_of_places (fromJson_rule loaded member)
  | cbor root registry loaded =>
    simp only [RuleContext.fromCbor, bind_eq_ok] at loaded
    obtain ⟨_, -, _, -, rules, each, _, -, loaded⟩ := loaded
    cases loaded
    obtain ⟨_, _, _, made⟩ := mapIndexed_mem each member
    exact Rule.indexed_of_sorted (loadCborRule_byIndex made).sorted

/-- The residue of a rule that restores its fields is decoded to the stored fields without the
    computed ones, to the bit, whatever follows it. -/
theorem decodeFields_of_restores {ctx : RuleContext} (loaded : ctx.Loaded) {rule : Rule}
    (member : rule ∈ ctx.rules.rules) {direction : Direction} {packet : List UInt8}
    {last : CompressionState}
    (ran : runEntries packet direction rule.fields .initial = .ok (some last))
    {provider : Option ExternalValueProvider}
    (restores : rule.Restores direction provider last.fields) {reader : BitReader}
    {further : List Bool} (bits : reader.unread = last.residue.bits ++ further) :
    decodeFields rule direction provider reader =
      .ok (last.fields.withoutComputed rule, reader.skip last.residue.bitLen) := by
  have indexed := loaded.indexed member
  have valid := (loaded.valid.rules rule member).fields
  have readBack : ∀ entry ∈ rule.active direction, ∀ state next decoded bitLen value matched,
      entry.field ≠ .syntheticCoapMarker → entry.action ≠ .compute →
        Mirrors rule direction state decoded →
        Taken packet direction entry.branch state bitLen value matched next →
        (∀ stored ∈ next.fields, stored ∈ last.fields) →
          ReadBack entry direction provider decoded state next value := by
    intro entry listed state next decoded bitLen value matched visible sent mirrors taken kept
    have previous := restores.previous entry listed
    have stored : (⟨entry.field, entry.fieldPosition, entry.entryIndex, next.scope⟩, value) ∈
        last.fields := by
      apply kept
      rw [taken.fields]
      exact List.mem_append_right _ List.mem_cons_self
    exact readBack_of_restores (valid entry (mem_active.mp listed).1) visible sent previous
      (restores.values _ stored entry listed rfl) (mirrors.resolve indexed previous) taken
  obtain ⟨spent, decoded, wrote, reads, mirrors⟩ := (Mirrors.initial rule direction).run_back indexed
    valid (fun _ inside => inside) readBack ran
  have residue : last.residue.bits = spent := by simpa [CompressionState.initial] using wrote
  have length : spent.length = last.residue.bitLen := by rw [← residue, last.residue.length_bits]
  have here : spent <+: Cursor.rest reader := by
    change spent <+: reader.unread
    rw [bits, residue]
    exact List.prefix_append _ _
  rw [decodeFields, bind_run]
  change (decodeFieldList direction provider (rule.active direction) .initial reader >>= _) = _
  rw [show rule.active direction = rule.fields.filter
    (fun entry => entry.direction.accepts direction) from rfl, reads reader here, length]
  rw [← mirrors.fields]
  rfl

/-- An entry that stores fields accepted the value, and the field is stored under its index. -/
def StoredBy (direction : Direction) (entries : List FieldRule) (stored : FieldKey × FieldValue) :
    Prop :=
  ∃ entry ∈ entries, entry.stores direction ∧ entry.entryIndex = stored.1.entryIndex ∧
    ∃ own, matchesBranch stored.2 entry.branch = .ok (some own)

theorem storedBy_of_run {direction : Direction} {packet : List UInt8} {entries : List FieldRule}
    {state last : CompressionState}
    (ran : runEntries packet direction entries state = .ok (some last)) :
    ∀ stored ∈ last.fields, stored ∈ state.fields ∨ StoredBy direction entries stored := by
  induction entries generalizing state with
  | nil =>
    cases ran
    exact fun stored member => .inl member
  | cons entry entries ih =>
    obtain ⟨next, first, rest⟩ := runEntries_cons.mp ran
    intro stored member
    rcases ih rest stored member with before | ⟨other, listed, accepted⟩
    · by_cases visible : entry.stores direction
      · have active : entry.direction.accepts direction ∧ entry.field ≠ .syntheticCoapMarker := by
          simpa [FieldRule.stores] using visible
        rw [advance, if_neg (by simpa using active.1)] at first
        rcases traverseBranch_some.mp first with ⟨marker, -⟩ | ⟨-, bitLen, value, matched, taken⟩
        · exact absurd marker active.2
        · rw [taken.fields] at before
          rcases List.mem_append.mp before with old | new
          · exact .inl old
          · rw [List.mem_singleton] at new
            subst new
            obtain ⟨-, own, judged, -⟩ := matchEntry_matched taken.entry
            exact .inr ⟨entry, List.mem_cons_self, visible, rfl, own, judged⟩
      · have same : advance packet direction entry state = .ok (some state) :=
          advance_silent (by simpa using visible) state
        cases same.symm.trans first
        exact .inl before
    · exact .inr ⟨other, List.mem_cons_of_mem entry listed, accepted⟩

/-- Entries that send their value, leave it to be computed or fix it at a length of its own restore
    whatever they stored. -/
theorem Rule.restores_of_codable {ctx : RuleContext} (loaded : ctx.Loaded) {rule : Rule}
    (member : rule ∈ ctx.rules.rules) {direction : Direction} {packet : List UInt8}
    {last : CompressionState}
    (ran : runEntries packet direction rule.fields .initial = .ok (some last))
    (codable : ∀ entry ∈ rule.active direction, entry.Codable rule direction)
    (provider : Option ExternalValueProvider) : rule.Restores direction provider last.fields := by
  refine ⟨fun entry listed => (codable entry listed).previous, fun stored inside entry listed same => ?_⟩
  rcases storedBy_of_run ran stored inside with none | ⟨other, listed', visible, index, own, judged⟩
  · cases none
  obtain rfl : other = entry :=
    loaded.indexed member other listed' entry (mem_active.mp listed).1 (index.trans same.symm)
  have shown : other.field ≠ .syntheticCoapMarker := by
    have both : other.direction.accepts direction ∧ other.field ≠ .syntheticCoapMarker := by
      simpa [FieldRule.stores] using visible
    exact both.2
  have actions := (codable other listed).action
  have fixed (action : other.action = .notSent) : other.matching = .equal ∧
      other.length ≠ .variableBytes ∧ other.length ≠ .variableBits := by
    rw [action] at actions
    simpa [shown] using actions
  constructor
  · intro action
    exact matchesBranch_equal _ (fixed action).1 judged
  · rintro action (length | length)
    · exact absurd length (fixed action).2.1
    · exact absurd length (fixed action).2.2
  · intro action
    rw [action] at actions
    simp [shown] at actions
  · rintro (action | action)
    · rw [action] at actions
      simp [shown] at actions
    · rw [action] at actions
      simp [shown] at actions

/-- Only values that can be computed are left out of what is decoded. -/
theorem elides_withoutComputed {rule : Rule} (valid : ∀ entry ∈ rule.fields, entry.Valid)
    (indexed : rule.Indexed) {fields : FieldStore}
    (sources : ∀ stored ∈ fields, ∃ entry ∈ rule.fields,
      entry.entryIndex = stored.1.entryIndex ∧ entry.field = stored.1.field) :
    Elides fields (fields.withoutComputed rule) := by
  constructor
  · rw [withoutComputed, List.filter_filter]
    apply List.filter_congr
    intro stored member
    obtain ⟨entry, listed, index, named⟩ := sources stored member
    cases computed : rule.computes stored.1.entryIndex with
    | false => simp
    | true =>
      rw [← index] at computed
      have supported := (valid entry listed).compute ((Rule.computes_iff indexed listed).mp computed)
      rw [named] at supported
      simp [supported]
  · exact fun stored member => (List.mem_filter.mp member).1

end SchcCore
