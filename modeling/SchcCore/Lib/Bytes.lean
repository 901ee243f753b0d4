import SchcCore.Lib.BigEndian

/- Positions and ranges of a byte string: reading one byte, cutting a range out, writing a
   range over. -/
namespace Bytes

/-- Byte `i`, or zero past the end. -/
def byteAt (bytes : List UInt8) (i : Nat) : UInt8 := bytes.getD i 0

/-- Bytes `start..stop`. -/
def cut (bytes : List UInt8) (start stop : Nat) : List UInt8 := (bytes.take stop).drop start

/-- Puts `new` over the bytes from `start` on. -/
def overwrite (bytes : List UInt8) (start : Nat) (new : List UInt8) : List UInt8 :=
  bytes.take start ++ new ++ bytes.drop (start + new.length)

/- Indexing where the bound is known: each use carries its proof. -/

/-- `bytes[i]` -/
abbrev byteIn (bytes : List UInt8) (i : Nat) (_ : i < bytes.length) : UInt8 := byteAt bytes i

/-- `bytes[start..stop]` -/
abbrev cutIn (bytes : List UInt8) (start stop : Nat) (_ : start ≤ stop ∧ stop ≤ bytes.length) :
    List UInt8 :=
  cut bytes start stop

/-- `bytes[start..]` -/
abbrev tailIn (bytes : List UInt8) (start : Nat) (_ : start ≤ bytes.length) : List UInt8 :=
  bytes.drop start

theorem forall_byte {P : UInt8 → Prop} (all : ∀ n : Fin 256, P (UInt8.ofNat n)) : ∀ b, P b := by
  intro b
  have here := all ⟨b.toNat, b.toNat_lt⟩
  simpa using here

theorem length_cut {bytes : List UInt8} {start stop : Nat} (inside : stop ≤ bytes.length) :
    (cut bytes start stop).length = stop - start := by
  simp [cut, inside]

theorem cut_append_cut (bytes : List UInt8) {a b c : Nat} (ab : a ≤ b) (bc : b ≤ c) :
    cut bytes a b ++ cut bytes b c = cut bytes a c := by
  apply List.ext_getElem?
  intro i
  simp only [cut, List.getElem?_append, List.length_drop, List.length_take, List.getElem?_drop,
    List.getElem?_take]
  by_cases short : bytes.length ≤ b
  · by_cases left : i < min b bytes.length - a
    · simp only [left, ↓reduceIte]
      rw [if_pos (by omega), if_pos (by omega)]
    · simp only [left, ↓reduceIte]
      have past : bytes[a + i]? = none := by
        rw [List.getElem?_eq_none]
        omega
      have past' : bytes[b + (i - (min b bytes.length - a))]? = none := by
        rw [List.getElem?_eq_none]
        omega
      simp [past, past']
  · by_cases left : i < b - a
    · rw [if_pos (by omega), if_pos (by omega), if_pos (by omega)]
    · rw [if_neg (by omega)]
      have same : b + (i - (min b bytes.length - a)) = a + i := by omega
      rw [same]

theorem cut_to_end (bytes : List UInt8) (start : Nat) :
    cut bytes start bytes.length = bytes.drop start := by
  simp [cut]

theorem cut_all (bytes : List UInt8) : cut bytes 0 bytes.length = bytes := by
  simp [cut]

theorem cut_append_drop (bytes : List UInt8) {a b : Nat} (ab : a ≤ b)
    (inside : b ≤ bytes.length) : cut bytes a b ++ bytes.drop b = bytes.drop a := by
  rw [← cut_to_end, cut_append_cut bytes ab inside, cut_to_end]

theorem take_append_cut (bytes : List UInt8) {a b : Nat} (ab : a ≤ b) :
    bytes.take a ++ cut bytes a b = bytes.take b := by
  have start : bytes.take a = cut bytes 0 a := by simp [cut]
  rw [start, cut_append_cut bytes (Nat.zero_le a) ab]
  simp [cut]

theorem cut_one {bytes : List UInt8} {i : Nat} (inside : i < bytes.length) :
    cut bytes i (i + 1) = [byteAt bytes i] := by
  rw [cut, List.drop_take, Nat.add_sub_cancel_left, List.drop_eq_getElem_cons inside,
    List.take_succ_cons, List.take_zero]
  simp [byteAt, inside]

theorem cut_two {bytes : List UInt8} {i : Nat} (inside : i + 1 < bytes.length) :
    cut bytes i (i + 2) = [byteAt bytes i, byteAt bytes (i + 1)] := by
  rw [← cut_append_cut bytes (Nat.le_succ i) (by omega : i + 1 ≤ i + 2), cut_one (by omega),
    cut_one inside]
  rfl

@[simp] theorem length_overwrite {bytes new : List UInt8} {start : Nat}
    (inside : start + new.length ≤ bytes.length) :
    (overwrite bytes start new).length = bytes.length := by
  simp [overwrite]
  omega

theorem overwrite_self (bytes : List UInt8) {start stop : Nat} (ordered : start ≤ stop)
    (inside : stop ≤ bytes.length) : overwrite bytes start (cut bytes start stop) = bytes := by
  have size : start + (stop - start) = stop := by omega
  rw [overwrite, length_cut inside, take_append_cut bytes ordered, size, List.take_append_drop]

theorem cut_overwrite_same {bytes new : List UInt8} {start : Nat}
    (inside : start + new.length ≤ bytes.length) :
    cut (overwrite bytes start new) start (start + new.length) = new := by
  have front : (bytes.take start).length = start := by simp; omega
  rw [overwrite, cut, List.append_assoc, List.take_append, front, List.take_of_length_le (by omega),
    List.drop_append, front, List.drop_of_length_le (by omega)]
  simp

theorem cut_overwrite_before {bytes new : List UInt8} {start a b : Nat} (before : b ≤ start)
    (inside : start ≤ bytes.length) : cut (overwrite bytes start new) a b = cut bytes a b := by
  rw [cut, cut, overwrite, List.append_assoc, List.take_append, List.take_take, Nat.min_eq_left before,
    List.length_take, Nat.min_eq_left inside, Nat.sub_eq_zero_of_le before, List.take_zero,
    List.append_nil]

theorem drop_overwrite_after {bytes new : List UInt8} {start n : Nat}
    (inside : start ≤ bytes.length) (after : start + new.length ≤ n) :
    (overwrite bytes start new).drop n = bytes.drop n := by
  have front : (bytes.take start).length = start := by simp; omega
  rw [overwrite, List.append_assoc, List.drop_append, front, List.drop_of_length_le (by omega),
    List.drop_append, List.drop_of_length_le (by omega), List.drop_drop, List.nil_append,
    List.nil_append]
  congr 1
  omega

theorem drop_overwrite_before {bytes new : List UInt8} {start n : Nat} (before : n ≤ start)
    (inside : start ≤ bytes.length) :
    (overwrite bytes start new).drop n = overwrite (bytes.drop n) (start - n) new := by
  have front : (bytes.take start).length = start := by simp; omega
  rw [overwrite, overwrite, List.append_assoc, List.append_assoc,
    List.drop_append_of_le_length (by omega), List.drop_take, List.drop_drop]
  congr 3
  omega

theorem overwrite_overwrite {bytes first second : List UInt8} {start : Nat}
    (same : first.length = second.length) (inside : start + first.length ≤ bytes.length) :
    overwrite (overwrite bytes start first) start second = overwrite bytes start second := by
  have front : (overwrite bytes start first).take start = bytes.take start := by
    rw [overwrite, List.append_assoc, List.take_append_of_le_length (by simp; omega),
      List.take_of_length_le (by simp)]
  have back : (overwrite bytes start first).drop (start + second.length) =
      bytes.drop (start + second.length) := drop_overwrite_after (by omega) (by omega)
  rw [overwrite, front, back]
  rfl

/-- Writing over the middle of three pieces. -/
theorem overwrite_middle (front : List UInt8) {old new : List UInt8} (back : List UInt8)
    (same : old.length = new.length) :
    overwrite (front ++ old ++ back) front.length new = front ++ new ++ back := by
  rw [overwrite, List.append_assoc front, List.take_left, List.drop_append,
    List.drop_of_length_le (Nat.le_add_right _ _), Nat.add_sub_cancel_left, ← same,
    List.drop_left, List.nil_append]

theorem overwrite_append_right (front bytes new : List UInt8) (start : Nat) :
    overwrite (front ++ bytes) (front.length + start) new = front ++ overwrite bytes start new := by
  rw [overwrite, overwrite, List.take_length_add_append, Nat.add_assoc, List.drop_length_add_append]
  simp only [List.append_assoc]

theorem byteAt_append_right (front bytes : List UInt8) (i : Nat) :
    byteAt (front ++ bytes) (front.length + i) = byteAt bytes i := by
  rw [byteAt, byteAt, List.getD_eq_getElem?_getD, List.getD_eq_getElem?_getD,
    List.getElem?_append_right (Nat.le_add_right _ _), Nat.add_sub_cancel_left]

theorem byteAt_append_left {front : List UInt8} (bytes : List UInt8) {i : Nat}
    (inside : i < front.length) : byteAt (front ++ bytes) i = byteAt front i := by
  simp [byteAt, List.getD_eq_getElem?_getD, List.getElem?_append_left inside]

theorem byteAt_drop (bytes : List UInt8) (n i : Nat) :
    byteAt (bytes.drop n) i = byteAt bytes (n + i) := by
  simp [byteAt, List.getD_eq_getElem?_getD]

theorem byteAt_overwrite_outside {bytes new : List UInt8} {start i : Nat}
    (inside : start + new.length ≤ bytes.length) (outside : i < start ∨ start + new.length ≤ i) :
    byteAt (overwrite bytes start new) i = byteAt bytes i := by
  rcases outside with before | after
  · rw [overwrite, List.append_assoc, byteAt_append_left _ (by simp; omega)]
    simp [byteAt, List.getD_eq_getElem?_getD, before]
  · have kept : (overwrite bytes start new).drop (start + new.length) =
        bytes.drop (start + new.length) := drop_overwrite_after (by omega) (Nat.le_refl _)
    have rest := congrArg (fun tail => byteAt tail (i - (start + new.length))) kept
    simp only [byteAt_drop, Nat.add_sub_cancel' after] at rest
    exact rest

theorem cut_drop (bytes : List UInt8) (n a b : Nat) :
    cut (bytes.drop n) a b = cut bytes (n + a) (n + b) := by
  simp only [cut, List.drop_take, List.drop_drop]
  congr 1
  omega

end Bytes
