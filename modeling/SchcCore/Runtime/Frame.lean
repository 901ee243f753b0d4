import SchcCore.Bit.Writer

/- Compressed frames as the runtime stores them: exactly as many bytes as the meaningful bits
   need, and zeros behind them. -/
namespace SchcCore
open BitList Outcome

inductive FrameError where
  | zeroBitLength
  | nonCanonicalStorageLength (bitLen expectedBytes actualBytes : Nat)
  | nonZeroPadding (paddingBits : Nat) (value : UInt8)
  deriving DecidableEq, Repr

/-- What the constructor of a frame checks. -/
structure Canonical (bytes : List UInt8) (bitLen : Nat) : Prop where
  positive : 0 < bitLen
  size : bytes.length = (bitLen + 7) / 8
  clear : (ofBytes bytes).drop bitLen = List.replicate (8 * bytes.length - bitLen) false

structure SchcFrame where
  bytes : List UInt8
  bitLen : Nat
  canonical : Canonical bytes bitLen

/-- The low `paddingBits` bits of the last byte. -/
def paddingValue (bytes : List UInt8) (paddingBits : Nat) : UInt8 :=
  Bytes.byteAt bytes (bytes.length - 1) &&& ((1 <<< UInt8.ofNat paddingBits) - 1)

theorem and_low_mask_eq_zero (b : UInt8) (n : Nat) (small : n < 8) :
    b &&& ((1 <<< UInt8.ofNat n) - 1) = 0 ↔ ∀ j < n, b.toNat.testBit j = false := by
  have mask : ((1 : UInt8) <<< UInt8.ofNat n - 1).toNat = 2 ^ n - 1 := by
    revert n
    decide
  rw [← UInt8.toNat_inj, UInt8.toNat_and, mask, show (0 : UInt8).toNat = 0 by rfl,
    Nat.and_two_pow_sub_one_eq_mod]
  constructor
  · intro clear j below
    have bit := Nat.testBit_mod_two_pow b.toNat n j
    rw [clear, Nat.zero_testBit] at bit
    simpa [below] using bit.symm
  · intro clear
    apply Nat.eq_of_testBit_eq
    intro j
    rw [Nat.testBit_mod_two_pow, Nat.zero_testBit]
    by_cases below : j < n
    · rw [clear j below, Bool.and_false]
    · simp [below]

/-- The padding is the part of the last byte past the meaningful bits. -/
theorem paddingValue_eq_zero {bytes : List UInt8} {bitLen : Nat} (positive : 0 < bitLen)
    (size : bytes.length = (bitLen + 7) / 8) :
    paddingValue bytes ((8 - bitLen % 8) % 8) = 0 ↔
      (ofBytes bytes).drop bitLen = List.replicate (8 * bytes.length - bitLen) false := by
  have last : bytes.length - 1 < bytes.length := by omega
  rw [paddingValue, Bytes.byteAt, List.getD_eq_getElem?_getD, List.getElem?_eq_getElem last,
    Option.getD_some, and_low_mask_eq_zero _ _ (Nat.mod_lt _ (by decide))]
  constructor
  · intro clear
    apply List.ext_getElem
    · simp
    · intro i inside _
      have past : bitLen + i < 8 * bytes.length := by
        simp only [List.length_drop, length_ofBytes] at inside
        omega
      have byte : (bitLen + i) / 8 = bytes.length - 1 := by omega
      rw [List.getElem_drop, List.getElem_replicate, getElem_ofBytes _ _ _ (by omega)]
      simp only [byte]
      exact clear _ (by omega)
  · intro clear j below
    have past : 8 * bytes.length - 1 - j < (ofBytes bytes).length := by
      simp only [length_ofBytes]
      omega
    have zero : (ofBytes bytes)[8 * bytes.length - 1 - j] = false := by
      have split : 8 * bytes.length - 1 - j = bitLen + (8 * bytes.length - 1 - j - bitLen) := by omega
      have inside : 8 * bytes.length - 1 - j - bitLen < ((ofBytes bytes).drop bitLen).length := by
        simp only [List.length_drop, length_ofBytes]
        omega
      have dropped := List.getElem_drop (h := inside)
      simp only [← split] at dropped
      rw [← dropped]
      simp [clear]
    rw [getElem_ofBytes _ _ _ (by omega)] at zero
    have byte : (8 * bytes.length - 1 - j) / 8 = bytes.length - 1 := by omega
    have bit : 7 - (8 * bytes.length - 1 - j) % 8 = j := by omega
    simpa only [byte, bit] using zero

namespace SchcFrame

def new (bytes : List UInt8) (bitLen : Nat) : Except FrameError SchcFrame :=
  if zero : bitLen = 0 then .error .zeroBitLength
  else if other : bytes.length ≠ (bitLen + 7) / 8 then
    .error (.nonCanonicalStorageLength bitLen ((bitLen + 7) / 8) bytes.length)
  else
    let paddingBits := (8 - bitLen % 8) % 8
    if dirty : paddingBits ≠ 0 ∧ paddingValue bytes paddingBits ≠ 0 then
      .error (.nonZeroPadding paddingBits (paddingValue bytes paddingBits))
    else
      .ok ⟨bytes, bitLen, by
        have positive : 0 < bitLen := Nat.pos_of_ne_zero zero
        have size : bytes.length = (bitLen + 7) / 8 := not_not.mp other
        refine ⟨positive, size, ?_⟩
        rw [← paddingValue_eq_zero positive size]
        by_cases aligned : paddingBits = 0
        · change paddingValue bytes paddingBits = 0
          rw [aligned]
          exact UInt8.and_zero
        · by_contra left
          exact dirty ⟨aligned, left⟩⟩

/-- What a frame was made of. -/
theorem new_ok {bytes : List UInt8} {bitLen : Nat} {frame : SchcFrame}
    (made : new bytes bitLen = .ok frame) : frame.bytes = bytes ∧ frame.bitLen = bitLen := by
  unfold new at made
  split at made
  · cases made
  · split at made
    · cases made
    · dsimp only at made
      split at made
      · cases made
      · cases made
        exact ⟨rfl, rfl⟩

/-- A frame is accepted exactly when it is canonical. -/
theorem new_ok_iff (bytes : List UInt8) (bitLen : Nat) :
    (∃ frame, new bytes bitLen = .ok frame) ↔ Canonical bytes bitLen := by
  constructor
  · rintro ⟨frame, made⟩
    obtain ⟨rfl, rfl⟩ := new_ok made
    exact frame.canonical
  · rintro ⟨positive, size, clear⟩
    have zero : ¬ bitLen = 0 := by omega
    have clean : ¬ ((8 - bitLen % 8) % 8 ≠ 0 ∧ paddingValue bytes ((8 - bitLen % 8) % 8) ≠ 0) := by
      intro dirty
      exact dirty.2 ((paddingValue_eq_zero positive size).mpr clear)
    refine ⟨⟨bytes, bitLen, ⟨positive, size, clear⟩⟩, ?_⟩
    rw [new, dif_neg zero, dif_neg (not_not.mpr size)]
    dsimp only
    rw [dif_neg clean]

end SchcFrame
end SchcCore
