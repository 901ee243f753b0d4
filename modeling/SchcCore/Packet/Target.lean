import SchcCore.Packet.Field
import SchcCore.Rule.Load

/- What the bytes of a target denote at a field's width. Up to 64 bits they are a number, padded
   with zero bits in front; beyond, they are the leading bytes and zero bits follow. -/
namespace SchcCore
open Outcome BitList BigEndian

/- Lengths. -/

theorem FieldValue.bitLen_fromBytes {bytes : List UInt8} {bitLen : Nat} {v : FieldValue}
    (made : FieldValue.fromBytes bytes bitLen = .ok v) : v.bitLen = bitLen := by
  obtain ⟨inside, bits⟩ := FieldValue.fromBytes_bitLen made
  rw [← v.length_bits, bits, List.length_take, length_ofBytes]
  omega

theorem FieldValue.bitLen_fromU64 {n bitLen : Nat} {v : FieldValue}
    (made : FieldValue.fromU64 n bitLen = .ok v) : v.bitLen = bitLen := by
  simp only [FieldValue.fromU64, reject_eq_ok (fail_ne_ok _)] at made
  obtain ⟨-, -, made⟩ := made
  split at made
  · rw [bind_eq_ok] at made
    obtain ⟨_, -, made⟩ := made
    exact FieldValue.bitLen_fromBytes made
  · exact FieldValue.bitLen_fromBytes made

theorem bitLen_bytesAsValue {bytes : List UInt8} {bitLen : Nat} {v : FieldValue}
    (made : bytesAsValue bytes bitLen = .ok v) : v.bitLen = bitLen := by
  simp only [bytesAsValue, reject_eq_ok (invalidResidue_ne_ok _)] at made
  obtain ⟨-, made⟩ := made
  split at made
  · exact FieldValue.bitLen_fromU64 made
  · exact FieldValue.bitLen_fromBytes made

theorem targetAsValue_bytes_ne_none (bytes : List UInt8) (bitLen : Nat) :
    targetAsValue (.bytes bytes) bitLen ≠ .ok none := by
  simp [targetAsValue, bind_eq_ok]

theorem targetAsValue_some {target : TargetValue} {bitLen : Nat} {v : FieldValue}
    (made : targetAsValue target bitLen = .ok (some v)) :
    ∃ bytes, target = .bytes bytes ∧ bytesAsValue bytes bitLen = .ok v := by
  cases target with
  | none => simp [targetAsValue] at made
  | mapping values => simp [targetAsValue] at made
  | bytes bytes =>
    rw [targetAsValue, bind_eq_ok] at made
    obtain ⟨value, made, same⟩ := made
    cases same
    exact ⟨bytes, rfl, made⟩

/- Up to 64 bits. -/

theorem value_lt_of_width {bytes : List UInt8} {width : Nat} (short : 8 * bytes.length ≤ width) :
    value bytes < 2 ^ width := by
  have bound := value_lt bytes
  have wider : 2 ^ (8 * bytes.length) ≤ 2 ^ width := Nat.pow_le_pow_right (by decide) short
  have byte : 256 ^ bytes.length = 2 ^ (8 * bytes.length) := by
    rw [Nat.pow_mul]
  omega

/-- A number at a width that holds its bytes: zero bits, then the bits of the bytes. -/
theorem ofNat_value {bytes : List UInt8} {width : Nat} (fits : 8 * bytes.length ≤ width) :
    ofNat width (value bytes) =
      List.replicate (width - 8 * bytes.length) false ++ ofBytes bytes := by
  have short := value_lt_of_width fits
  apply toNat_injective
  · simp only [length_ofNat, List.length_append, List.length_replicate, length_ofBytes]
    omega
  · rw [toNat_ofNat short, toNat_append, toNat_replicate_false, toNat_ofBytes]
    simp

theorem bytesAsValue_narrow {bytes : List UInt8} {bitLen : Nat} (narrow : bitLen ≤ 64)
    (inside : bytes.length ≤ (bitLen + 7) / 8) (fits : value bytes < 2 ^ bitLen) :
    bytesAsValue bytes bitLen = .ok (.ofBits (ofNat bitLen (value bytes))) := by
  rw [bytesAsValue, if_neg (by omega), if_pos narrow]
  exact FieldValue.fromU64_eq narrow fits

/- Beyond 64 bits. -/

theorem bytesAsValue_wide {bytes : List UInt8} {bitLen : Nat} (wide : ¬ bitLen ≤ 64)
    (fits : 8 * bytes.length ≤ bitLen) :
    bytesAsValue bytes bitLen =
      .ok (.ofBits (ofBytes bytes ++ List.replicate (bitLen - 8 * bytes.length) false)) := by
  have inside : ¬ bytes.length > (bitLen + 7) / 8 := by omega
  rw [bytesAsValue, if_neg inside, if_neg wide]
  have size : (ofBytes bytes ++ List.replicate (bitLen - 8 * bytes.length) false).length =
      bitLen := by
    simp only [List.length_append, length_ofBytes, List.length_replicate]
    omega
  have padded : (bytes ++ List.replicate ((bitLen + 7) / 8 - bytes.length) (0 : UInt8)).length =
      (bitLen + 7) / 8 := by
    simp only [List.length_append, List.length_replicate]
    omega
  have made := FieldValue.fromBytes_of_zeros
    (show ofBytes (bytes ++ List.replicate ((bitLen + 7) / 8 - bytes.length) 0) =
      (ofBytes bytes ++ List.replicate (bitLen - 8 * bytes.length) false) ++ _ by
        rw [size, padded, ofBytes_append, ofBytes_replicate_zero, List.append_assoc,
          ← List.replicate_add]
        congr 2
        omega)
    (by rw [size, padded])
  rwa [size] at made

/-- Bits that zero bits can be moved past are zero bits. -/
theorem append_replicate_comm_iff {bits : List Bool} {k : Nat} (some : 0 < k) :
    bits ++ List.replicate k false = List.replicate k false ++ bits ↔
      bits = List.replicate bits.length false := by
  constructor
  · intro same
    induction bits with
    | nil => rfl
    | cons bit bits ih =>
      obtain ⟨k, rfl⟩ := Nat.exists_eq_succ_of_ne_zero (Nat.pos_iff_ne_zero.mp some)
      rw [List.replicate_succ, List.cons_append, List.cons_append, List.cons.injEq] at same
      obtain ⟨zero, rest⟩ := same
      subst zero
      have turned : bits ++ List.replicate (k + 1) false =
          List.replicate (k + 1) false ++ bits := by
        rw [List.replicate_succ, rest, ← List.replicate_succ, List.replicate_succ',
          List.append_assoc]
        rfl
      rw [List.length_cons, List.replicate_succ, ← ih turned]
  · intro zeros
    rw [zeros, ← List.replicate_add, ← List.replicate_add, Nat.add_comm]

theorem ofBytes_eq_replicate_iff (bytes : List UInt8) :
    ofBytes bytes = List.replicate (ofBytes bytes).length false ↔ ∀ b ∈ bytes, b = 0 := by
  rw [length_ofBytes]
  constructor
  · intro zeros
    rw [← ofBytes_replicate_zero] at zeros
    exact List.eq_replicate_iff.mp (ofBytes_injective zeros) |>.2
  · intro zeros
    rw [List.eq_replicate_of_mem zeros, List.length_replicate, ofBytes_replicate_zero]

/-- Whole bytes as a target are the value of their bits. -/
theorem bytesAsValue_whole (bytes : List UInt8) :
    bytesAsValue bytes (bytes.length * 8) = .ok (.ofBits (ofBytes bytes)) := by
  have fits : ¬ bytes.length > (bytes.length * 8 + 7) / 8 := by omega
  simp only [bytesAsValue]
  rw [if_neg fits]
  by_cases narrow : bytes.length * 8 ≤ 64
  · have spelled := ofBytes_toBytes bytes.length (value bytes)
    rw [toBytes_value, Nat.mul_comm] at spelled
    have bound : value bytes < 2 ^ (bytes.length * 8) := by
      rw [Nat.mul_comm, Nat.pow_mul]
      exact value_lt bytes
    rw [if_pos narrow, FieldValue.fromU64_eq narrow bound, ← spelled]
  · have none : (bytes.length * 8 + 7) / 8 - bytes.length = 0 := by omega
    rw [if_neg narrow, none, List.replicate_zero, List.append_nil, Nat.mul_comm]
    exact FieldValue.fromBytes_whole bytes

/- Which targets a width can hold. -/

/-- A field of this length holds the target: not too many bytes, not too large a number, and
    nothing set beyond the field's last bit. -/
structure Fits (target : List UInt8) (bitLen : Nat) : Prop where
  bytes : target.length ≤ (bitLen + 7) / 8
  number : bitLen ≤ 64 → value target < 2 ^ bitLen
  tail : 64 < bitLen → ∀ bit ∈ (ofBytes target).drop bitLen, bit = false

/-- The bits beyond a wide field are those of the target, then those of its padding. -/
theorem ofBytes_padded_drop (target : List UInt8) (bitLen k : Nat) :
    (∀ bit ∈ (ofBytes (target ++ List.replicate k 0)).drop bitLen, bit = false) ↔
      ∀ bit ∈ (ofBytes target).drop bitLen, bit = false := by
  rw [ofBytes_append, ofBytes_replicate_zero, List.drop_append, List.drop_replicate]
  constructor
  · intro zeros bit member
    exact zeros bit (List.mem_append_left _ member)
  · intro zeros bit member
    rcases List.mem_append.mp member with own | padding
    · exact zeros bit own
    · exact (List.mem_replicate.mp padding).2

/-- Bytes of the right number make a value exactly when nothing is set beyond its last bit. -/
theorem fromBytes_ok_iff {bytes : List UInt8} {bitLen : Nat}
    (size : bytes.length = (bitLen + 7) / 8) :
    (∃ v, FieldValue.fromBytes bytes bitLen = .ok v) ↔
      ∀ bit ∈ (ofBytes bytes).drop bitLen, bit = false := by
  constructor
  · rintro ⟨v, made⟩
    have whole : v.bytes = bytes := by
      unfold FieldValue.fromBytes at made
      split at made
      · simp at made
      · split at made
        · cases made
          exact (List.length_eq_zero_iff.mp (by omega)).symm
        · dsimp only at made
          split at made
          · simp at made
          · cases made
            exact List.take_of_length_le (by omega)
    have clear := v.clear
    rw [FieldValue.bitLen_fromBytes made, whole] at clear
    intro bit member
    rw [clear] at member
    exact (List.mem_replicate.mp member).2
  · intro zeros
    have inside : ((ofBytes bytes).take bitLen).length = bitLen := by
      rw [List.length_take, length_ofBytes]
      omega
    have rest : (ofBytes bytes).drop bitLen =
        List.replicate (8 * bytes.length - bitLen) false := by
      rw [List.eq_replicate_of_mem zeros, List.length_drop, length_ofBytes]
    have made : FieldValue.fromBytes bytes ((ofBytes bytes).take bitLen).length = .ok _ :=
      FieldValue.fromBytes_of_zeros (by rw [inside, ← rest, List.take_append_drop])
        (by rw [inside, size])
    rw [inside] at made
    exact ⟨_, made⟩

/-- A target can be read at a length exactly when it fits. -/
theorem bytesAsValue_ok_iff (target : List UInt8) (bitLen : Nat) :
    (∃ v, bytesAsValue target bitLen = .ok v) ↔ Fits target bitLen := by
  by_cases short : target.length ≤ (bitLen + 7) / 8
  · by_cases narrow : bitLen ≤ 64
    · constructor
      · rintro ⟨v, made⟩
        refine ⟨short, fun _ => ?_, fun wide => absurd narrow (by omega)⟩
        rw [bytesAsValue, if_neg (by omega), if_pos narrow] at made
        rcases (FieldValue.fromU64_bits made).2 with full | small
        · exact value_lt_of_width (by omega)
        · exact small
      · intro fits
        exact ⟨_, bytesAsValue_narrow narrow short (fits.number narrow)⟩
    · have padded : (target ++ List.replicate ((bitLen + 7) / 8 - target.length) (0 : UInt8)).length =
          (bitLen + 7) / 8 := by
        rw [List.length_append, List.length_replicate]
        omega
      have bits := ofBytes_padded_drop target bitLen ((bitLen + 7) / 8 - target.length)
      rw [bytesAsValue, if_neg (by omega), if_neg narrow, fromBytes_ok_iff padded, bits]
      constructor
      · intro zeros
        exact ⟨short, fun small => absurd small narrow, fun _ => zeros⟩
      · intro fits
        exact fits.tail (by omega)
  · constructor
    · rintro ⟨v, made⟩
      rw [bytesAsValue, if_pos (by omega)] at made
      simp [invalidResidue] at made
    · intro fits
      exact absurd fits.bytes short

theorem fits_whole_iff (target : List UInt8) (len : Nat) :
    Fits target (8 * len) ↔ target.length ≤ len := by
  constructor
  · intro fits
    have bytes := fits.bytes
    omega
  · intro short
    refine ⟨by omega, fun _ => value_lt_of_width (by omega), fun _ bit member => ?_⟩
    rw [List.drop_of_length_le (by rw [length_ofBytes]; omega)] at member
    cases member

end SchcCore
