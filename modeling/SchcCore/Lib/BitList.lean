import Mathlib

/- Most-significant-first bit lists: the bits of a number at a fixed width, of a byte
   and of a byte string, and the number that a bit list spells. -/
namespace BitList

def ofNat : Nat → Nat → List Bool
  | 0, _ => []
  | width + 1, value => value.testBit width :: ofNat width value

def toNat (bits : List Bool) : Nat := bits.foldl (fun v b => 2 * v + b.toNat) 0

def byteBits (b : UInt8) : List Bool := ofNat 8 b.toNat

def ofBytes (bytes : List UInt8) : List Bool := bytes.flatMap byteBits

@[simp] theorem length_ofNat (width value : Nat) : (ofNat width value).length = width := by
  induction width with
  | zero => rfl
  | succ width ih => simp [ofNat, ih]

theorem getElem_ofNat (width value i : Nat) (h : i < (ofNat width value).length) :
    (ofNat width value)[i] = value.testBit (width - 1 - i) := by
  induction width generalizing i with
  | zero => simp at h
  | succ width ih =>
    cases i with
    | zero => simp [ofNat]
    | succ i =>
      simp only [ofNat, List.getElem_cons_succ]
      rw [ih]
      congr 1
      omega

theorem toNat_foldl (bits : List Bool) (start : Nat) :
    bits.foldl (fun v b => 2 * v + b.toNat) start = start * 2 ^ bits.length + toNat bits := by
  induction bits generalizing start with
  | nil => simp [toNat]
  | cons b bits ih =>
    have tail := ih b.toNat
    simp only [toNat, List.foldl_cons, Nat.mul_zero, Nat.zero_add, List.length_cons] at tail ⊢
    rw [ih, tail]
    simp only [toNat]
    ring

@[simp] theorem toNat_nil : toNat [] = 0 := rfl

theorem toNat_cons (b : Bool) (bits : List Bool) :
    toNat (b :: bits) = b.toNat * 2 ^ bits.length + toNat bits := by
  have step := toNat_foldl bits b.toNat
  simpa [toNat] using step

theorem toNat_append (xs ys : List Bool) :
    toNat (xs ++ ys) = toNat xs * 2 ^ ys.length + toNat ys := by
  rw [toNat, List.foldl_append, toNat_foldl]
  rfl

theorem toNat_lt (bits : List Bool) : toNat bits < 2 ^ bits.length := by
  induction bits with
  | nil => simp
  | cons b bits ih =>
    rw [toNat_cons, List.length_cons, Nat.pow_succ]
    cases b <;> simp <;> omega

theorem toNat_replicate_false (n : Nat) : toNat (List.replicate n false) = 0 := by
  induction n with
  | zero => rfl
  | succ n ih => rw [List.replicate_succ, toNat_cons, ih]; simp

theorem toNat_ofNat_mod (width value : Nat) : toNat (ofNat width value) = value % 2 ^ width := by
  induction width with
  | zero => simp [ofNat, Nat.mod_one]
  | succ width ih =>
    rw [ofNat, toNat_cons, length_ofNat, ih, Nat.pow_succ, Nat.mod_mul,
      Nat.testBit_eq_decide_div_mod_eq]
    rcases Nat.mod_two_eq_zero_or_one (value / 2 ^ width) with even | odd
    · simp [even]
    · simp [odd, Nat.add_comm]

theorem toNat_ofNat {width value : Nat} (fits : value < 2 ^ width) :
    toNat (ofNat width value) = value := by
  rw [toNat_ofNat_mod, Nat.mod_eq_of_lt fits]

theorem toNat_injective {xs ys : List Bool} (sameLength : xs.length = ys.length)
    (same : toNat xs = toNat ys) : xs = ys := by
  induction xs generalizing ys with
  | nil => exact (List.length_eq_zero_iff.mp sameLength.symm).symm
  | cons x xs ih =>
    cases ys with
    | nil => simp at sameLength
    | cons y ys =>
      have tails : xs.length = ys.length := by simpa using sameLength
      have bx := toNat_lt xs
      have bound := toNat_lt ys
      rw [toNat_cons, toNat_cons, tails] at same
      rw [tails] at bx
      have heads : x = y := by
        cases x <;> cases y <;> simp at same ⊢ <;> omega
      subst heads
      rw [ih tails (by omega)]

theorem ofNat_injective {width a b : Nat} (ha : a < 2 ^ width) (hb : b < 2 ^ width)
    (same : ofNat width a = ofNat width b) : a = b := by
  rw [← toNat_ofNat ha, same, toNat_ofNat hb]

/-- The leading bits of a wide number are the bits of its quotient. -/
theorem take_ofNat (width value n : Nat) (h : n ≤ width) :
    (ofNat width value).take n = ofNat n (value / 2 ^ (width - n)) := by
  apply List.ext_getElem
  · simp [h]
  · intro i hi _
    simp only [List.length_take, length_ofNat, lt_inf_iff] at hi
    rw [List.getElem_take, getElem_ofNat, getElem_ofNat, Nat.testBit_div_two_pow]
    congr 1
    omega

/-- One number starts another, bit by bit, when it is the other shifted right. -/
theorem ofNat_prefix_iff {m n a b : Nat} (ha : a < 2 ^ m) (hb : b < 2 ^ n) :
    ofNat m a <+: ofNat n b ↔ m ≤ n ∧ b >>> (n - m) = a := by
  rw [Nat.shiftRight_eq_div_pow]
  constructor
  · intro starts
    have fits : m ≤ n := by simpa using starts.length_le
    have small : b / 2 ^ (n - m) < 2 ^ m := by
      apply Nat.div_lt_of_lt_mul
      rwa [← Nat.pow_add, Nat.sub_add_cancel fits]
    have spelled := List.prefix_iff_eq_take.mp starts
    rw [length_ofNat, take_ofNat n b m fits] at spelled
    exact ⟨fits, (ofNat_injective ha small spelled).symm⟩
  · rintro ⟨fits, rfl⟩
    rw [← take_ofNat n b m fits]
    exact List.take_prefix _ _

@[simp] theorem length_byteBits (b : UInt8) : (byteBits b).length = 8 := length_ofNat 8 b.toNat

@[simp] theorem ofBytes_nil : ofBytes [] = [] := rfl

@[simp] theorem ofBytes_cons (b : UInt8) (bytes : List UInt8) :
    ofBytes (b :: bytes) = byteBits b ++ ofBytes bytes := by
  simp [ofBytes]

@[simp] theorem ofBytes_append (xs ys : List UInt8) :
    ofBytes (xs ++ ys) = ofBytes xs ++ ofBytes ys := by
  simp [ofBytes]

@[simp] theorem length_ofBytes (bytes : List UInt8) :
    (ofBytes bytes).length = 8 * bytes.length := by
  induction bytes with
  | nil => rfl
  | cons b bytes ih => simp [ih]; omega

theorem ofBytes_replicate_zero (n : Nat) :
    ofBytes (List.replicate n 0) = List.replicate (8 * n) false := by
  induction n with
  | zero => rfl
  | succ n ih =>
    rw [List.replicate_succ, ofBytes_cons, ih, Nat.mul_succ, Nat.add_comm, List.replicate_add]
    rfl

theorem byteBits_injective {a b : UInt8} (same : byteBits a = byteBits b) : a = b :=
  UInt8.toNat_inj.mp (ofNat_injective a.toNat_lt b.toNat_lt same)

theorem ofBytes_injective {xs ys : List UInt8} (same : ofBytes xs = ofBytes ys) : xs = ys := by
  induction xs generalizing ys with
  | nil =>
    cases ys with
    | nil => rfl
    | cons y ys => simp [byteBits, ofNat] at same
  | cons x xs ih =>
    cases ys with
    | nil => simp [byteBits, ofNat] at same
    | cons y ys =>
      rw [ofBytes_cons, ofBytes_cons] at same
      obtain ⟨head, tail⟩ := List.append_inj same (by simp)
      rw [byteBits_injective head, ih tail]

/-- Bit `i` of a byte string is bit `7 - i % 8` of its byte `i / 8`. -/
theorem getElem_ofBytes (bytes : List UInt8) (i : Nat) (h : i < (ofBytes bytes).length)
    (hb : i / 8 < bytes.length) :
    (ofBytes bytes)[i] = bytes[i / 8].toNat.testBit (7 - i % 8) := by
  induction bytes generalizing i with
  | nil => simp at hb
  | cons b bytes ih =>
    simp only [ofBytes_cons]
    by_cases first : i < 8
    · have index : i / 8 = 0 := by omega
      rw [List.getElem_append_left (by simpa using first)]
      simp only [byteBits, getElem_ofNat, index, List.getElem_cons_zero]
      congr 1
      omega
    · have index : i / 8 = (i - 8) / 8 + 1 := by omega
      have bound : i - 8 < (ofBytes bytes).length := by
        simp only [ofBytes_cons, List.length_append, length_byteBits] at h
        omega
      rw [List.getElem_append_right (by simpa using first)]
      simp only [length_byteBits, index, List.getElem_cons_succ]
      rw [ih (i - 8) bound (by simp only [List.length_cons] at hb; omega)]
      congr 1
      omega

theorem take_ofBytes (bytes : List UInt8) (n : Nat) :
    (ofBytes bytes).take (8 * n) = ofBytes (bytes.take n) := by
  induction bytes generalizing n with
  | nil => simp
  | cons b bytes ih =>
    cases n with
    | zero => simp
    | succ n =>
      rw [ofBytes_cons, List.take_succ_cons, ofBytes_cons, Nat.mul_succ, ← ih,
        List.take_append, List.take_of_length_le (by simp)]
      simp

theorem ofBytes_singleton (b : UInt8) : ofBytes [b] = byteBits b := by simp

end BitList
