import SchcCore.Compress.Traverse
import SchcCore.Packet.Target

/- What taking a branch does: the scope and length it settles on, the value it matches, the
   bits it adds to the residue and the field it stores. -/
namespace SchcCore
open Outcome BitList FieldStore Bytes

/- Matching. -/

theorem fieldBit_eq (v : FieldValue) {i : Nat} (inside : i < v.bits.length) :
    fieldBit v i = .ok v.bits[i] := by
  have short := inside
  rw [v.length_bits] at short
  have size := v.size
  have byte : i / 8 < v.bytes.length := by omega
  have listed : i < (ofBytes v.bytes).length := by
    rw [length_ofBytes]
    omega
  have bit : v.bits[i] = (ofBytes v.bytes)[i] := by simp [FieldValue.bits]
  rw [bit, getElem_ofBytes _ _ listed byte, fieldBit, index_eq byte, ok_bind, byteAt,
    List.getD_eq_getElem _ _ byte, BitReader.bit_of_byte]
  split <;> simp_all

/-- The loop compares the next `count` bits of two values that both have them. -/
theorem bitsEqual_eq {left right : FieldValue} {start count : Nat}
    (leftInside : start + count ≤ left.bitLen) (rightInside : start + count ≤ right.bitLen) :
    bitsEqual left right start count =
      .ok (decide ((left.bits.drop start).take count = (right.bits.drop start).take count)) := by
  induction count generalizing start with
  | zero => simp [bitsEqual]
  | succ count ih =>
    have l : start < left.bits.length := by
      rw [left.length_bits]
      omega
    have r : start < right.bits.length := by
      rw [right.length_bits]
      omega
    rw [bitsEqual, fieldBit_eq left l, ok_bind, fieldBit_eq right r, ok_bind,
      List.drop_eq_getElem_cons l, List.drop_eq_getElem_cons r, List.take_succ_cons,
      List.take_succ_cons]
    by_cases same : left.bits[start] = right.bits[start]
    · rw [if_pos same, ih (by omega) (by omega)]
      simp [same]
    · rw [if_neg same]
      simp [same]

/-- Two values of one length are compared on their leading bits. -/
theorem prefixBitsEqual_eq {left right : FieldValue} {n : Nat} (inside : n ≤ left.bitLen)
    (lengths : left.bitLen = right.bitLen) :
    prefixBitsEqual left right n = .ok (decide (left.bits.take n = right.bits.take n)) := by
  rw [prefixBitsEqual, if_pos lengths, bitsEqual_eq (by omega) (by omega), List.drop_zero,
    List.drop_zero]

theorem matchesBranch_equal {value : FieldValue} (branch : Branch) {matched : MatchResult}
    (operator : branch.matching = .equal)
    (found : matchesBranch value branch = .ok (some matched)) :
    targetAsValue branch.target value.bitLen = .ok (some value) := by
  simp only [matchesBranch, operator, bind_eq_ok] at found
  obtain ⟨target, made, found⟩ := found
  split at found
  · rename_i same
    rw [made, same]
  · simp at found

theorem matchesBranch_msb {value : FieldValue} (branch : Branch) {matched : MatchResult}
    {n : Nat} (operator : branch.matching = .msb n)
    (found : matchesBranch value branch = .ok (some matched)) :
    n ≤ value.bitLen ∧ matched.msbBits = some n ∧
      ∃ target, targetAsValue branch.target value.bitLen = .ok (some target) ∧
        value.bits.take n = target.bits.take n := by
  simp only [matchesBranch, operator, reject_eq_ok (fail_ne_ok _), bind_eq_ok] at found
  obtain ⟨long, target, made, found⟩ := found
  cases target with
  | none => simp at found
  | some target =>
    obtain ⟨bytes, -, read⟩ := targetAsValue_some made
    have lengths := (bitLen_bytesAsValue read).symm
    dsimp only at found
    rw [prefixBitsEqual_eq (by omega) lengths, ok_bind] at found
    by_cases same : value.bits.take n = target.bits.take n
    · rw [if_pos (decide_eq_true same)] at found
      cases found
      exact ⟨by omega, rfl, target, made, same⟩
    · rw [if_neg (by simpa using same)] at found
      cases found

/-- What a search or an extraction returns has the expected length and was matched. -/
structure Matched (branch : Branch) (bitLen : Option Nat) (value : FieldValue)
    (matched : MatchResult) : Prop where
  length : ∀ n, bitLen = some n → value.bitLen = n
  found : ∃ own, matchesBranch value branch = .ok (some own) ∧
    own.mappingIndex = matched.mappingIndex ∧ own.msbBits = matched.msbBits

theorem length_of_any {bitLen : Option Nat} {value : FieldValue}
    (expected : ¬ bitLen.any (fun n => value.bitLen ≠ n)) (n : Nat) (known : bitLen = some n) :
    value.bitLen = n := by
  subst known
  simpa using expected

theorem searchCoapOption_matched {number : Nat} {bitLen : Option Nat} {branch : Branch}
    {ordinal : Nat} {options : List CoapOption} {value : FieldValue} {matched : MatchResult}
    (found : searchCoapOption number bitLen branch ordinal options = .ok (some (value, matched))) :
    Matched branch bitLen value matched := by
  induction options generalizing ordinal with
  | nil => simp [searchCoapOption] at found
  | cons option options ih =>
    rw [searchCoapOption] at found
    split at found
    · exact ih found
    · rw [bind_eq_ok] at found
      obtain ⟨own, -, found⟩ := found
      split at found
      · exact ih found
      · rename_i expected
        rw [bind_eq_ok] at found
        obtain ⟨verdict, judged, found⟩ := found
        cases verdict with
        | none => exact ih found
        | some verdict =>
          cases found
          exact ⟨length_of_any expected, verdict, judged, rfl, rfl⟩

theorem matchEntry_matched {packet : List UInt8} {direction : Direction} {branch : Branch}
    {bitLen : Option Nat} {scope : PacketScope} {state : CompressionState} {value : FieldValue}
    {matched : MatchResult}
    (found : matchEntry packet direction branch bitLen scope state = .ok (some (value, matched))) :
    Matched branch bitLen value matched := by
  unfold matchEntry at found
  split at found
  · unfold extractMatchingCoapOption at found
    split at found
    · simp at found
    · split at found
      · rw [bind_eq_ok] at found
        obtain ⟨_, -, found⟩ := found
        exact searchCoapOption_matched found
      · simp at found
  · dsimp only at found
    rw [bind_eq_ok] at found
    obtain ⟨own, -, found⟩ := found
    split at found
    · simp at found
    · rename_i expected
      rw [bind_eq_ok] at found
      obtain ⟨verdict, judged, found⟩ := found
      cases verdict with
      | none => simp at found
      | some verdict =>
        cases found
        exact ⟨length_of_any expected, _, judged, rfl, rfl⟩

/- Residue. -/

/-- The bits that announce a value's length. -/
def lengthPrefix (value : FieldValue) : FieldLength → List Bool
  | .variableBytes => variableLengthPrefix (value.bitLen / 8)
  | .variableBits => variableLengthPrefix value.bitLen
  | _ => []

/-- A length that its prefix can announce. -/
def Announced (value : FieldValue) : FieldLength → Prop
  | .variableBytes => value.bitLen % 8 = 0 ∧ value.bitLen / 8 ≤ 65535
  | .variableBits => value.bitLen ≤ 65535
  | _ => True

theorem writeLengthPrefix_bits {writer w : BitWriter} {value : FieldValue} {length : FieldLength}
    (wrote : writeLengthPrefix writer value length = .ok w) :
    w.bits = writer.bits ++ lengthPrefix value length ∧ Announced value length := by
  unfold writeLengthPrefix at wrote
  split at wrote
  · rw [reject_eq_ok (invalidResidue_ne_ok _)] at wrote
    obtain ⟨aligned, wrote⟩ := wrote
    obtain ⟨bounded, bits⟩ := writeVariableLengthPrefix_bits wrote
    exact ⟨bits, by omega, bounded⟩
  · obtain ⟨bounded, bits⟩ := writeVariableLengthPrefix_bits wrote
    exact ⟨bits, bounded⟩
  · rename_i notBytes notBits
    cases wrote
    cases length with
    | variableBytes => exact absurd rfl notBytes
    | variableBits => exact absurd rfl notBits
    | _ => exact ⟨by simp [lengthPrefix], trivial⟩

theorem writeResidue_valueSent {writer w : BitWriter} {value : FieldValue} (branch : Branch)
    {matched : MatchResult} (action : branch.action = .valueSent)
    (wrote : writeResidue writer value branch matched = .ok w) :
    w.bits = writer.bits ++ (lengthPrefix value branch.parse.length ++ value.bits) ∧
      Announced value branch.parse.length := by
  simp only [writeResidue, action, bind_eq_ok] at wrote
  obtain ⟨announced, first, wrote⟩ := wrote
  obtain ⟨bits, fits⟩ := writeLengthPrefix_bits first
  refine ⟨?_, fits⟩
  split at wrote
  · rename_i empty
    cases wrote
    have none : value.bits = [] := List.length_eq_zero_iff.mp (by rw [value.length_bits, empty])
    rw [bits, none, List.append_nil]
  · obtain ⟨-, rest⟩ := FieldValue.writeRangeTo_bits wrote
    rw [rest, bits, List.drop_zero, List.take_of_length_le (by simp), List.append_assoc]

theorem writeResidue_lsb {writer w : BitWriter} {value : FieldValue} (branch : Branch)
    {matched : MatchResult} (action : branch.action = .lsb) {n : Nat}
    (sent : matched.msbBits = some n) (wrote : writeResidue writer value branch matched = .ok w) :
    w.bits = writer.bits ++ (lengthPrefix value branch.parse.length ++ value.bits.drop n) ∧
      Announced value branch.parse.length := by
  simp only [writeResidue, action, sent, bind_eq_ok] at wrote
  obtain ⟨announced, first, wrote⟩ := wrote
  obtain ⟨bits, fits⟩ := writeLengthPrefix_bits first
  obtain ⟨-, rest⟩ := FieldValue.writeRangeTo_bits wrote
  refine ⟨?_, fits⟩
  rw [rest, bits, List.take_of_length_le (by simp), List.append_assoc]

theorem writeResidue_silent {writer w : BitWriter} {value : FieldValue} (branch : Branch)
    {matched : MatchResult} (action : branch.action = .notSent ∨ branch.action = .compute)
    (wrote : writeResidue writer value branch matched = .ok w) : w = writer := by
  rcases action with action | action
  · simp only [writeResidue, action] at wrote
    cases wrote
    rfl
  · simp only [writeResidue, action] at wrote
    cases wrote
    rfl

/- The whole step. -/

/-- A branch taken with a value, from `state` to `next`. -/
structure Taken (packet : List UInt8) (direction : Direction) (branch : Branch)
    (state : CompressionState) (bitLen : Option Nat) (value : FieldValue) (matched : MatchResult)
    (next : CompressionState) : Prop where
  scope : scopeForField state branch.parse.field = .ok next.scope
  applies : fieldPositionApplies branch.parse.fieldPosition next.scope branch.parse.field state
  length : resolveFieldBitLen branch.parse.length state = .ok bitLen
  entry : matchEntry packet direction branch bitLen next.scope state = .ok (some (value, matched))
  residue : writeResidue state.residue value branch matched = .ok next.residue
  lengths : updateLengths state.lengths branch.parse.field value = .ok next.lengths
  fields : next.fields = state.fields.insert
    ⟨branch.parse.field, branch.parse.fieldPosition, branch.parse.entryIndex, next.scope⟩ value
  ordinals : ∃ ordinal, optionOrdinal packet branch.parse next.scope matched = .ok ordinal ∧
    next.coapOptionOrdinals = state.coapOptionOrdinals ++ ordinal.toList

theorem traverseBranch_some {packet : List UInt8} {direction : Direction} {branch : Branch}
    {state next : CompressionState} :
    traverseBranch packet direction branch state = .ok (some next) ↔
      (branch.parse.field = .syntheticCoapMarker ∧ next = state) ∨
        (branch.parse.field ≠ .syntheticCoapMarker ∧
          ∃ bitLen value matched, Taken packet direction branch state bitLen value matched next) := by
  unfold traverseBranch
  by_cases marker : branch.parse.field = .syntheticCoapMarker
  · simp [marker, eq_comm]
  · rw [if_neg marker]
    simp only [marker, false_and, false_or, ne_eq, not_false_eq_true, true_and, bind_eq_ok]
    constructor
    · rintro ⟨scope, entered, done⟩
      split at done
      · simp at done
      · rename_i applies
        rw [bind_eq_ok] at done
        obtain ⟨bitLen, length, done⟩ := done
        rw [bind_eq_ok] at done
        obtain ⟨entry, matched, done⟩ := done
        cases entry with
        | none => simp at done
        | some entry =>
          obtain ⟨value, result⟩ := entry
          simp only [bind_eq_ok] at done
          obtain ⟨ordinal, numbered, residue, wrote, lengths, updated, done⟩ := done
          cases done
          exact ⟨bitLen, value, result, entered, by simpa using applies, length, matched, wrote,
            updated, rfl, ordinal, numbered, rfl⟩
    · rintro ⟨bitLen, value, matched, taken⟩
      obtain ⟨ordinal, numbered, ordinals⟩ := taken.ordinals
      refine ⟨next.scope, taken.scope, ?_⟩
      rw [if_neg (by simpa using taken.applies)]
      simp only [taken.length, ok_bind, taken.entry, numbered, taken.residue, taken.lengths,
        ← taken.fields, ← ordinals]

end SchcCore
