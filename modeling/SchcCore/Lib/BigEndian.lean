import SchcCore.Lib.BitList

/- Big-endian byte strings as numbers. -/
namespace BigEndian

def value (bytes : List UInt8) : Nat := bytes.foldl (fun v b => v * 256 + b.toNat) 0

def toBytes : Nat → Nat → List UInt8
  | 0, _ => []
  | width + 1, n => UInt8.ofNat (n / 256 ^ width) :: toBytes width n

@[simp] theorem length_toBytes (width n : Nat) : (toBytes width n).length = width := by
  induction width with
  | zero => rfl
  | succ width ih => simp [toBytes, ih]

theorem value_foldl (bytes : List UInt8) (start : Nat) :
    bytes.foldl (fun v b => v * 256 + b.toNat) start = start * 256 ^ bytes.length + value bytes := by
  induction bytes generalizing start with
  | nil => simp [value]
  | cons b bytes ih =>
    have tail := ih b.toNat
    simp only [value, List.foldl_cons, Nat.zero_mul, Nat.zero_add, List.length_cons] at tail ⊢
    rw [ih, tail]
    simp only [value]
    ring

theorem value_cons (b : UInt8) (bytes : List UInt8) :
    value (b :: bytes) = b.toNat * 256 ^ bytes.length + value bytes := by
  have step := value_foldl bytes b.toNat
  simpa [value] using step

theorem value_lt (bytes : List UInt8) : value bytes < 256 ^ bytes.length := by
  induction bytes with
  | nil => simp [value]
  | cons b bytes ih =>
    have digit : b.toNat ≤ 255 := Nat.le_of_lt_succ b.toNat_lt
    rw [value_cons, List.length_cons, Nat.pow_succ]
    have scaled := Nat.mul_le_mul_right (256 ^ bytes.length) digit
    omega

theorem toBytes_mod (width n : Nat) : toBytes width (n % 256 ^ width) = toBytes width n := by
  induction width generalizing n with
  | zero => rfl
  | succ width ih =>
    have pos : 0 < 256 ^ width := Nat.pow_pos (by decide)
    have digit : UInt8.ofNat (n % 256 ^ (width + 1) / 256 ^ width) = UInt8.ofNat (n / 256 ^ width) := by
      apply UInt8.toNat_inj.mp
      rw [UInt8.toNat_ofNat', UInt8.toNat_ofNat', Nat.pow_succ, Nat.mod_mul_right_div_self,
        show (2 : Nat) ^ 8 = 256 by rfl, Nat.mod_mod]
    rw [toBytes, toBytes, digit, ← ih (n % 256 ^ (width + 1)), ← ih n,
      Nat.mod_mod_of_dvd _ (pow_dvd_pow 256 (Nat.le_succ width))]

theorem toBytes_value (bytes : List UInt8) : toBytes bytes.length (value bytes) = bytes := by
  induction bytes with
  | nil => rfl
  | cons b bytes ih =>
    have pos : 0 < 256 ^ bytes.length := Nat.pow_pos (by decide)
    have low := value_lt bytes
    have high : (b.toNat * 256 ^ bytes.length + value bytes) / 256 ^ bytes.length = b.toNat := by
      rw [Nat.mul_comm, Nat.mul_add_div pos, Nat.div_eq_of_lt low, Nat.add_zero]
    have tail : (b.toNat * 256 ^ bytes.length + value bytes) % 256 ^ bytes.length = value bytes := by
      rw [Nat.mul_comm, Nat.mul_add_mod, Nat.mod_eq_of_lt low]
    rw [List.length_cons, value_cons, toBytes, high, ← toBytes_mod, tail, ih, UInt8.ofNat_toNat]

theorem value_toBytes {width n : Nat} (fits : n < 256 ^ width) : value (toBytes width n) = n := by
  induction width generalizing n with
  | zero =>
    have zero : n = 0 := by simpa using fits
    subst zero
    rfl
  | succ width ih =>
    have pos : 0 < 256 ^ width := Nat.pow_pos (by decide)
    have digit : n / 256 ^ width < 256 := by
      apply (Nat.div_lt_iff_lt_mul pos).mpr
      simpa [Nat.pow_succ, Nat.mul_comm] using fits
    have split := Nat.div_add_mod n (256 ^ width)
    rw [toBytes, value_cons, length_toBytes, ← toBytes_mod, ih (Nat.mod_lt n pos),
      UInt8.toNat_ofNat', Nat.mod_eq_of_lt (show n / 256 ^ width < 2 ^ 8 from digit), Nat.mul_comm]
    exact split

theorem toBytes_two (a b : UInt8) : toBytes 2 (value [a, b]) = [a, b] := toBytes_value [a, b]

theorem value_two_lt (a b : UInt8) : value [a, b] < 65536 := by
  simpa using value_lt [a, b]

/-- Read bit by bit, a byte string spells its big-endian value. -/
theorem toNat_ofBytes (bytes : List UInt8) : BitList.toNat (BitList.ofBytes bytes) = value bytes := by
  induction bytes with
  | nil => rfl
  | cons b bytes ih =>
    rw [BitList.ofBytes_cons, BitList.toNat_append, ih, value_cons, BitList.length_ofBytes,
      BitList.byteBits, BitList.toNat_ofNat b.toNat_lt, Nat.pow_mul]

theorem ofBytes_toBytes (width n : Nat) :
    BitList.ofBytes (toBytes width n) = BitList.ofNat (8 * width) n := by
  apply BitList.toNat_injective
  · simp
  · have pow : (2 : Nat) ^ (8 * width) = 256 ^ width := by rw [Nat.pow_mul]
    rw [toNat_ofBytes, BitList.toNat_ofNat_mod, pow, ← toBytes_mod,
      value_toBytes (Nat.mod_lt _ (Nat.pow_pos (by decide)))]

end BigEndian
