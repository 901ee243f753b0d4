import SchcCore.Lib.Bytes

/- One's-complement sums of 16-bit big-endian words: the sum of a byte string's words, the
   end-around fold, and the check value that makes a sum all ones. -/
namespace OnesComplement
open Bytes BigEndian

/-- The words of a byte string, an odd last byte padded with zero. -/
def wordSum : List UInt8 → Nat
  | [] => 0
  | [high] => high.toNat * 256
  | high :: low :: rest => high.toNat * 256 + low.toNat + wordSum rest

/-- What folding the carries back in until 16 bits are left comes to. -/
def fold (n : Nat) : Nat := if n = 0 then 0 else (n - 1) % 65535 + 1

/-- The complement of a folded sum, with zero sent as all ones. -/
def check (n : Nat) : Nat := if fold n = 65535 then 65535 else 65535 - fold n

theorem wordSum_append {front : List UInt8} (rest : List UInt8) (even : front.length % 2 = 0) :
    wordSum (front ++ rest) = wordSum front + wordSum rest := by
  match front, even with
  | [], _ => simp [wordSum]
  | [_], even => simp at even
  | high :: low :: front, even =>
    have shorter : front.length % 2 = 0 := by simp at even; omega
    rw [List.cons_append, List.cons_append, wordSum, wordSum, wordSum_append rest shorter]
    omega

theorem wordSum_toBytes_two {n : Nat} (fits : n < 65536) : wordSum (toBytes 2 n) = n := by
  have value : value (toBytes 2 n) = n := value_toBytes (by simpa using fits)
  simp only [toBytes, wordSum]
  simpa [toBytes, BigEndian.value] using value

/-- Writing a word over a zero one at an even place adds that word to the sum. -/
theorem wordSum_overwrite {bytes : List UInt8} {start n : Nat} (even : start % 2 = 0)
    (inside : start + 2 ≤ bytes.length) (zero : cut bytes start (start + 2) = [0, 0])
    (fits : n < 65536) :
    wordSum (overwrite bytes start (toBytes 2 n)) = wordSum bytes + n := by
  have front : (bytes.take start).length % 2 = 0 := by simp; omega
  have split : bytes = bytes.take start ++ ([0, 0] ++ bytes.drop (start + 2)) := by
    rw [← zero, cut_append_drop bytes (by omega) inside, List.take_append_drop]
  have before : wordSum bytes = wordSum (bytes.take start) + wordSum (bytes.drop (start + 2)) := by
    conv_lhs => rw [split]
    have pair : ([0, 0] : List UInt8).length % 2 = 0 := rfl
    rw [wordSum_append _ front, wordSum_append _ pair]
    simp [wordSum]
  rw [overwrite, length_toBytes, List.append_assoc, wordSum_append _ front,
    wordSum_append _ (by simp), wordSum_toBytes_two fits, before]
  omega

theorem wordSum_le (bytes : List UInt8) : wordSum bytes ≤ 65535 * ((bytes.length + 1) / 2) := by
  match bytes with
  | [] => simp [wordSum]
  | [high] =>
    have := high.toNat_lt
    simp only [wordSum, List.length_cons, List.length_nil]
    omega
  | high :: low :: rest =>
    have := high.toNat_lt
    have := low.toNat_lt
    have tail := wordSum_le rest
    have words : (rest.length + 1 + 1 + 1) / 2 = (rest.length + 1) / 2 + 1 := by omega
    simp only [wordSum, List.length_cons, words, Nat.mul_add]
    omega

theorem fold_le (n : Nat) : fold n ≤ 65535 := by
  unfold fold
  split <;> omega

theorem fold_of_small {n : Nat} (small : n ≤ 65535) : fold n = n := by
  unfold fold
  split <;> omega

/-- One round of folding a carry back in keeps the folded sum. -/
theorem fold_round (n : Nat) : fold (n % 65536 + n / 65536) = fold n := by
  unfold fold
  split <;> split <;> omega

theorem fold_add_check (n : Nat) : fold (n + check n) = 65535 := by
  unfold check fold
  split <;> split <;> split <;> omega

end OnesComplement
