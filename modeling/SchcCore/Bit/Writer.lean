import SchcCore.Error
import SchcCore.Lib.BitList

/- MSB-first bit writer backed by an owned byte buffer. The buffer is as long as its bits
   need and the unused bits of its last byte are zero; the writer carries both facts, so
   that OR-ing a bit in always lands on a cleared one. -/
namespace SchcCore
open BitList Outcome

/-- `bytes[index / 8] |= 1 << (7 - index % 8)` -/
def orBit (bytes : List UInt8) (index : Nat) (inside : index / 8 < bytes.length) : List UInt8 :=
  bytes.set (index / 8) (bytes[index / 8] ||| (1 <<< UInt8.ofNat (7 - index % 8)))

/-- Clears what a last byte holds past `bitLen`: `last &= u8::MAX << (8 - bitLen % 8)`. -/
def maskTail (bytes : List UInt8) (bitLen : Nat) : List UInt8 :=
  if bitLen % 8 ≠ 0 then
    bytes.modify (bytes.length - 1) (· &&& (255 <<< UInt8.ofNat (8 - bitLen % 8)))
  else bytes

theorem testBit_single (shift j : Nat) (hs : shift < 8) :
    ((1 : UInt8) <<< UInt8.ofNat shift).toNat.testBit j = decide (j = shift) := by
  rw [UInt8.toNat_shiftLeft, Nat.testBit_mod_two_pow, UInt8.toNat_ofNat',
    Nat.mod_eq_of_lt (show shift < 2 ^ 8 by omega), Nat.mod_eq_of_lt hs,
    show (1 : UInt8).toNat = 1 by rfl, Nat.one_shiftLeft, Nat.testBit_two_pow]
  by_cases same : j = shift
  · simp [same, hs]
  · simp [same, Ne.symm same]

theorem testBit_upper_mask (shift j : Nat) (hs : shift < 8) (hj : j < 8) :
    ((255 : UInt8) <<< UInt8.ofNat shift).toNat.testBit j = decide (shift ≤ j) := by
  rw [UInt8.toNat_shiftLeft, Nat.testBit_mod_two_pow, UInt8.toNat_ofNat',
    Nat.mod_eq_of_lt (show shift < 2 ^ 8 by omega), Nat.mod_eq_of_lt hs, Nat.testBit_shiftLeft,
    show (255 : UInt8).toNat = 2 ^ 8 - 1 by rfl, Nat.testBit_two_pow_sub_one]
  have low : j - shift < 8 := by omega
  simp [hj, low]

@[simp] theorem length_orBit (bytes : List UInt8) (index : Nat)
    (inside : index / 8 < bytes.length) : (orBit bytes index inside).length = bytes.length := by
  simp [orBit]

/-- In the bit list of the buffer, the OR sets one position and leaves the others. -/
theorem ofBytes_orBit (bytes : List UInt8) (index : Nat) (inside : index / 8 < bytes.length) :
    ofBytes (orBit bytes index inside) = (ofBytes bytes).set index true := by
  apply List.ext_getElem
  · simp
  · intro i hi _
    have hb : i / 8 < bytes.length := by
      simp only [length_ofBytes, length_orBit] at hi
      omega
    rw [getElem_ofBytes _ _ hi (by simpa using hb), List.getElem_set,
      getElem_ofBytes _ _ (by simp only [length_ofBytes]; omega) hb]
    simp only [orBit, List.getElem_set]
    by_cases same : index = i
    · subst same
      simp only [↓reduceIte]
      rw [UInt8.toNat_or, Nat.testBit_or, testBit_single _ _ (by omega)]
      simp
    · simp only [same, ↓reduceIte]
      split
      · rename_i byte
        have other : 7 - i % 8 ≠ 7 - index % 8 := by omega
        rw [UInt8.toNat_or, Nat.testBit_or, testBit_single _ _ (by omega)]
        simp [byte, other]
      · rfl

@[simp] theorem length_maskTail (bytes : List UInt8) (bitLen : Nat) :
    (maskTail bytes bitLen).length = bytes.length := by
  unfold maskTail
  split <;> simp

/-- Masking keeps the first `bitLen` bits and zeroes the rest of the last byte. -/
theorem ofBytes_maskTail (bytes : List UInt8) (bitLen : Nat)
    (size : bytes.length = (bitLen + 7) / 8) :
    ofBytes (maskTail bytes bitLen) =
      (ofBytes bytes).take bitLen ++ List.replicate (8 * bytes.length - bitLen) false := by
  apply List.ext_getElem
  · simp
    omega
  · intro i hi _
    have hb : i / 8 < bytes.length := by
      simp only [length_ofBytes, length_maskTail] at hi
      omega
    rw [getElem_ofBytes _ _ hi (by simpa using hb)]
    have hi' : i < 8 * bytes.length := by simpa using hi
    by_cases inside : i < bitLen
    · rw [List.getElem_append_left (by simp; omega), List.getElem_take,
        getElem_ofBytes _ _ (by simp; omega) hb]
      unfold maskTail
      split
      · rw [List.getElem_modify]
        split
        · rename_i ragged last
          rw [UInt8.toNat_and, Nat.testBit_and, testBit_upper_mask _ _ (by omega) (by omega)]
          have kept : 8 - bitLen % 8 ≤ 7 - i % 8 := by omega
          simp [kept]
        · rfl
      · rfl
    · rw [List.getElem_append_right (by simp; omega), List.getElem_replicate]
      have ragged : bitLen % 8 ≠ 0 := by omega
      have last : bytes.length - 1 = i / 8 := by omega
      have cleared : ¬ 8 - bitLen % 8 ≤ 7 - i % 8 := by omega
      simp only [maskTail, ragged, ne_eq, not_false_eq_true, ↓reduceIte, List.getElem_modify, last]
      rw [UInt8.toNat_and, Nat.testBit_and, testBit_upper_mask _ _ (by omega) (by omega)]
      simp [cleared]

structure BitWriter where
  bytes : List UInt8
  bitLen : Nat
  size : bytes.length = (bitLen + 7) / 8
  clear : (ofBytes bytes).drop bitLen = List.replicate (8 * bytes.length - bitLen) false
  deriving DecidableEq

namespace BitWriter

def new : BitWriter := ⟨[], 0, rfl, rfl⟩

/-- The bit list a writer stands for. -/
def bits (w : BitWriter) : List Bool := (ofBytes w.bytes).take w.bitLen

@[simp] theorem length_bits (w : BitWriter) : w.bits.length = w.bitLen := by
  have := w.size
  simp [bits]
  omega

theorem ofBytes_bytes (w : BitWriter) :
    ofBytes w.bytes = w.bits ++ List.replicate (8 * w.bytes.length - w.bitLen) false := by
  rw [bits, ← w.clear, List.take_append_drop]

@[simp] theorem bits_new : new.bits = [] := rfl

theorem ext_bits {a b : BitWriter} (same : a.bits = b.bits) : a = b := by
  have lengths : a.bitLen = b.bitLen := by rw [← length_bits, same, length_bits]
  have bytes : a.bytes = b.bytes := by
    apply ofBytes_injective
    rw [ofBytes_bytes, ofBytes_bytes, same, a.size, b.size, lengths]
  cases a
  cases b
  simp_all

/-- `if self.bit_len % 8 == 0 { self.bytes.push(0) }` -/
def grow (w : BitWriter) : List UInt8 := if w.bitLen % 8 = 0 then w.bytes ++ [0] else w.bytes

theorem length_grow (w : BitWriter) : w.grow.length = (w.bitLen + 8) / 8 := by
  have := w.size
  unfold grow
  split
  · simp only [List.length_append, List.length_cons, List.length_nil]
    omega
  · omega

theorem ofBytes_grow (w : BitWriter) :
    ofBytes w.grow = w.bits ++ false :: List.replicate (8 * w.grow.length - (w.bitLen + 1)) false := by
  have size := w.size
  have grown := w.length_grow
  rw [← List.replicate_succ]
  unfold grow at grown ⊢
  split
  · rename_i aligned
    have exact : 8 * w.bytes.length - w.bitLen = 0 := by omega
    rw [ofBytes_append, ofBytes_bytes, exact, List.replicate_zero, List.append_nil,
      ofBytes_singleton, show byteBits 0 = List.replicate 8 false by rfl]
    congr 2
    simp only [List.length_append, List.length_cons, List.length_nil]
    omega
  · rw [ofBytes_bytes]
    congr 2
    omega

/-- The buffer after `write_bit`. -/
def pushed (w : BitWriter) (bit : Bool) : List UInt8 :=
  if bit then orBit w.grow w.bitLen (by rw [length_grow]; omega) else w.grow

theorem length_pushed (w : BitWriter) (bit : Bool) : (w.pushed bit).length = w.grow.length := by
  unfold pushed
  split
  · exact length_orBit _ _ _
  · rfl

theorem ofBytes_pushed (w : BitWriter) (bit : Bool) :
    ofBytes (w.pushed bit) =
      (w.bits ++ [bit]) ++ List.replicate (8 * w.grow.length - (w.bitLen + 1)) false := by
  unfold pushed
  split
  · rename_i set
    rw [ofBytes_orBit, ofBytes_grow, List.set_append_right _ _ (by simp)]
    simp [set]
  · rename_i unset
    rw [ofBytes_grow]
    simp [unset]

def writeBit (w : BitWriter) (bit : Bool) : BitWriter :=
  ⟨w.pushed bit, w.bitLen + 1, by
    rw [length_pushed, length_grow], by
    rw [ofBytes_pushed, length_pushed, List.drop_append, List.drop_of_length_le (by simp)]
    simp⟩

@[simp] theorem writeBit_bits (w : BitWriter) (bit : Bool) :
    (w.writeBit bit).bits = w.bits ++ [bit] := by
  change (ofBytes (w.pushed bit)).take (w.bitLen + 1) = _
  rw [ofBytes_pushed, List.take_append_of_le_length (by simp), List.take_of_length_le (by simp)]

theorem foldl_writeBit_bits (bits : List Bool) (w : BitWriter) :
    (bits.foldl writeBit w).bits = w.bits ++ bits := by
  induction bits generalizing w with
  | nil => simp
  | cons b bits ih =>
    rw [List.foldl_cons, ih, writeBit_bits]
    simp

def validateBitWidth (operation : String) (bits : Nat) : Result Unit :=
  if bits = 0 ∨ bits > 64 then fail (.invalidBitLength operation bits) else .ok ()

def valueFits (value bits : Nat) : Bool := bits = 64 || value < 1 <<< bits

/-- `for shift in (0..bits).rev() { self.write_bit((value >> shift) & 1 != 0) }` -/
def writeShifts (w : BitWriter) (value : Nat) : Nat → BitWriter
  | 0 => w
  | shift + 1 => writeShifts (w.writeBit ((value >>> shift) &&& 1 != 0)) value shift

def writeBits (w : BitWriter) (value bits : Nat) : Result BitWriter := do
  validateBitWidth "write_bits" bits
  if ¬ valueFits value bits then fail (.invalidBitLength "write_bits" bits)
  else .ok (w.writeShifts value bits)

theorem writeShifts_bits (w : BitWriter) (value width : Nat) :
    (w.writeShifts value width).bits = w.bits ++ ofNat width value := by
  induction width generalizing w with
  | zero => simp [writeShifts, ofNat]
  | succ width ih =>
    have bit : ((value >>> width) &&& 1 != 0) = value.testBit width := by
      simp [Nat.testBit, Nat.and_comm]
    rw [writeShifts, ih, writeBit_bits, bit]
    simp [ofNat]

/-- Writing a value of 1 to 64 bits that fits appends its bits and cannot fail. -/
theorem writeBits_ok (w : BitWriter) {value bits : Nat} (positive : 0 < bits) (narrow : bits ≤ 64)
    (fits : value < 2 ^ bits) :
    w.writeBits value bits = .ok (w.writeShifts value bits) := by
  have width : ¬ (bits = 0 ∨ bits > 64) := by omega
  simp [writeBits, validateBitWidth, width, valueFits, Nat.one_shiftLeft, fits]

theorem writeBits_width {w w' : BitWriter} {value bits : Nat}
    (written : w.writeBits value bits = .ok w') : 0 < bits ∧ bits ≤ 64 := by
  simp only [writeBits, validateBitWidth, reject_eq_ok (fail_ne_ok _), bind_eq_ok] at written
  obtain ⟨-, ⟨width, -⟩, -⟩ := written
  omega

theorem writeBits_bits {w w' : BitWriter} {value bits : Nat}
    (written : w.writeBits value bits = .ok w') : w'.bits = w.bits ++ ofNat bits value := by
  simp only [writeBits, bind_eq_ok] at written
  obtain ⟨_, _, written⟩ := written
  split at written
  · simp at written
  · cases written
    exact writeShifts_bits w value bits

theorem safe_writeBits (w : BitWriter) (value bits : Nat) : Safe (w.writeBits value bits) := by
  apply safe_bind
  · exact safe_ite (fun _ => safe_failed _) (fun _ => safe_ok _)
  · intro _ _
    exact safe_ite (fun _ => safe_failed _) (fun _ => safe_ok _)

def truncateBits (w : BitWriter) (bits : Nat) : Result BitWriter :=
  if inside : bits > w.bitLen then fail (.bitOutOfBounds w.bitLen (bits - w.bitLen) 0)
  else
    .ok ⟨maskTail (w.bytes.take ((bits + 7) / 8)) bits, bits, by
      have := w.size
      simp only [length_maskTail, List.length_take]
      omega, by
      have size := w.size
      rw [ofBytes_maskTail _ _ (by simp only [List.length_take]; omega), length_maskTail,
        List.drop_append, List.drop_of_length_le (by simp)]
      simp
      omega⟩

theorem truncateBits_bits {w w' : BitWriter} {bits : Nat}
    (cut : w.truncateBits bits = .ok w') : w'.bits = w.bits.take bits := by
  have size := w.size
  unfold truncateBits at cut
  split at cut
  · simp at cut
  · cases cut
    have kept : min bits (8 * ((bits + 7) / 8)) = bits := by omega
    have below : min bits w.bitLen = bits := by omega
    simp only [BitWriter.bits]
    rw [ofBytes_maskTail _ _ (by simp only [List.length_take]; omega),
      List.take_append_of_le_length (by simp; omega), List.take_take, ← take_ofBytes,
      List.take_take, List.take_take, Nat.min_self, kept, below]

def toVec (w : BitWriter) : List UInt8 := maskTail (w.bytes.take ((w.bitLen + 7) / 8)) w.bitLen

/-- The final mask of `to_vec` changes nothing: the unused bits are zero already. -/
theorem toVec_eq (w : BitWriter) : w.toVec = w.bytes := by
  apply ofBytes_injective
  rw [toVec, ← w.size, List.take_length, ofBytes_maskTail _ _ w.size, ofBytes_bytes]
  simp

end BitWriter
end SchcCore
