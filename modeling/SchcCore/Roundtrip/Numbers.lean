import SchcCore.Compress.Step
import SchcCore.Decompress.Engine
import SchcCore.Packet.Target

/- The number that a target denotes: what an equal comparison accepts for it, and what an entry that
   is not sent gives back. -/
namespace SchcCore
open Outcome BitList BigEndian

/-- Both engines read the target as its number at this width; so an integer that was stored without
    leading zero bytes is matched and rebuilt as that integer. -/
structure DenotesNumber (target : List UInt8) (bitLen : Nat) : Prop where
  read : ∃ v, bytesAsValue target bitLen = .ok v ∧
    v.bits = List.replicate (bitLen - 8 * target.length) false ++ ofBytes target
  matched : ∀ i, integerToMinimalBytes i = some target → ∀ (branch : Branch) (field : FieldValue),
    branch.matching = .equal → branch.target = .bytes target → field.bitLen = bitLen →
      ((∃ own, matchesBranch field branch = .ok (some own)) ↔ (toNat field.bits : Int) = i)
  rebuilt : ∀ i, integerToMinimalBytes i = some target → ∀ entry : FieldRule,
    entry.target = .bytes target →
      ∃ v, notSentValue entry bitLen = .ok v ∧ (toNat v.bits : Int) = i

theorem value_dropWhile_zero (bytes : List UInt8) :
    value (bytes.dropWhile (fun b => b = 0)) = value bytes := by
  induction bytes with
  | nil => rfl
  | cons b bytes ih =>
    by_cases zero : b = 0
    · subst zero
      rw [List.dropWhile_cons_of_pos (by decide), ih, value_cons]
      simp
    · rw [List.dropWhile_cons_of_neg (by simpa using zero)]

/-- An integer target keeps its number when its leading zero bytes are dropped. -/
theorem value_minimalBytes {i : Int} {bytes : List UInt8}
    (minimal : integerToMinimalBytes i = some bytes) : (value bytes : Int) = i := by
  unfold integerToMinimalBytes at minimal
  split at minimal
  · rename_i range
    split at minimal
    · rename_i zero
      cases minimal
      rw [zero]
      rfl
    · cases minimal
      have small : i.toNat < 256 ^ 8 := by omega
      rw [value_dropWhile_zero, value_toBytes small]
      omega
  · cases minimal

theorem toNat_padded (bytes : List UInt8) (k : Nat) :
    toNat (List.replicate k false ++ ofBytes bytes) = value bytes := by
  rw [toNat_append, toNat_replicate_false, toNat_ofBytes]
  simp

/-- Equal accepts the value of the target and no other. -/
theorem matchesBranch_equal_iff {branch : Branch} {target : List UInt8} {field v : FieldValue}
    (operator : branch.matching = .equal) (stored : branch.target = .bytes target)
    (read : bytesAsValue target field.bitLen = .ok v) :
    (∃ own, matchesBranch field branch = .ok (some own)) ↔ v = field := by
  constructor
  · rintro ⟨own, accepted⟩
    have equal := matchesBranch_equal branch operator accepted
    rw [stored, targetAsValue, read, ok_bind, Except.ok.injEq, Option.some.injEq] at equal
    exact equal
  · rintro rfl
    refine ⟨⟨none, none, none⟩, ?_⟩
    simp [matchesBranch, operator, stored, targetAsValue, read]

theorem denotesNumber_of_read {target : List UInt8} {bitLen : Nat} {v : FieldValue}
    (read : bytesAsValue target bitLen = .ok v)
    (bits : v.bits = List.replicate (bitLen - 8 * target.length) false ++ ofBytes target) :
    DenotesNumber target bitLen := by
  have number : toNat v.bits = value target := by rw [bits, toNat_padded]
  refine ⟨⟨v, read, bits⟩, ?_, ?_⟩
  · rintro i minimal branch field operator stored rfl
    rw [matchesBranch_equal_iff operator stored read, ← value_minimalBytes minimal, ← number,
      Int.natCast_inj]
    constructor
    · intro same
      rw [same]
    · intro same
      apply FieldValue.ext_bits
      refine (toNat_injective ?_ same).symm
      rw [FieldValue.length_bits, FieldValue.length_bits, bitLen_bytesAsValue read]
  · intro i minimal entry stored
    refine ⟨v, ?_, ?_⟩
    · rw [notSentValue, stored, targetAsValue, read]
      rfl
    · rw [number]
      exact value_minimalBytes minimal

/-- A target no longer than the field denotes its number there up to 64 bits, and beyond only
    when it fills the field or is zero. -/
theorem target_denotes_number_iff {target : List UInt8} {bitLen : Nat}
    (fits : 8 * target.length ≤ bitLen) :
    DenotesNumber target bitLen ↔
      bitLen ≤ 64 ∨ bitLen = 8 * target.length ∨ ∀ b ∈ target, b = 0 := by
  constructor
  · rintro ⟨⟨v, read, bits⟩, -, -⟩
    by_cases narrow : bitLen ≤ 64
    · exact .inl narrow
    by_cases full : bitLen = 8 * target.length
    · exact .inr (.inl full)
    rw [bytesAsValue_wide narrow fits] at read
    cases read
    rw [FieldValue.bits_ofBits] at bits
    have some : 0 < bitLen - 8 * target.length := by omega
    exact .inr (.inr ((ofBytes_eq_replicate_iff target).mp
      ((append_replicate_comm_iff some).mp bits)))
  · intro condition
    by_cases narrow : bitLen ≤ 64
    · have short : value target < 2 ^ bitLen := by
        have bound := toNat_lt (List.replicate (bitLen - 8 * target.length) false ++ ofBytes target)
        rw [toNat_padded] at bound
        have size : (List.replicate (bitLen - 8 * target.length) false ++ ofBytes target).length =
            bitLen := by
          simp only [List.length_append, List.length_replicate, length_ofBytes]
          omega
        rwa [size] at bound
      refine denotesNumber_of_read (bytesAsValue_narrow narrow (by omega) short) ?_
      rw [FieldValue.bits_ofBits, ofNat_value fits]
    · refine denotesNumber_of_read (bytesAsValue_wide narrow fits) ?_
      rw [FieldValue.bits_ofBits]
      rcases condition with small | full | zeros
      · exact absurd small narrow
      · rw [full, Nat.sub_self]
        simp
      · rcases Nat.eq_zero_or_pos (bitLen - 8 * target.length) with none | some
        · rw [none]
          simp
        · exact (append_replicate_comm_iff some).mpr ((ofBytes_eq_replicate_iff target).mpr zeros)

theorem target_denotes_number_at_one_in_16_bits : DenotesNumber [1] 16 :=
  (target_denotes_number_iff (by decide)).mpr (.inl (by decide))

/-- At 72 bits the target one is read as a one and 71 zero bits behind it. -/
theorem wide_target_is_not_its_number :
    ¬ ∀ target bitLen, 8 * target.length ≤ bitLen → DenotesNumber target bitLen := by
  intro every
  obtain ⟨v, read, bits⟩ := (every [1] 72 (by decide)).read
  rw [bytesAsValue_wide (by decide) (by decide)] at read
  cases read
  rw [FieldValue.bits_ofBits] at bits
  exact absurd bits (by decide)

end SchcCore
