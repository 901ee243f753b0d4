import SchcCore.Bit.Writer
import SchcCore.Lib.Stream

/- MSB-first bit reader over a byte slice, limited to its meaningful prefix. -/
namespace SchcCore
open BitList Outcome Stream

structure BitReader where
  bytes : List UInt8
  position : Nat
  bitLen : Nat
  bounded : bitLen ≤ bytes.length * 8
  deriving DecidableEq

namespace BitReader

def new (bytes : List UInt8) : BitReader := ⟨bytes, 0, bytes.length * 8, Nat.le_refl _⟩

def withBitLen (bytes : List UInt8) (bitLen : Nat) : Result BitReader :=
  if inside : bitLen > bytes.length * 8 then
    fail (.bitOutOfBounds 0 bitLen (bytes.length * 8))
  else .ok ⟨bytes, 0, bitLen, by omega⟩

def remaining (r : BitReader) : Nat := r.bitLen - r.position

def setPosition (r : BitReader) (position : Nat) : Result BitReader :=
  if position > r.bitLen then fail (.bitOutOfBounds position 0 r.bitLen)
  else .ok { r with position }

/-- The bits still to be read. -/
def unread (r : BitReader) : List Bool := ((ofBytes r.bytes).take r.bitLen).drop r.position

def skip (r : BitReader) (n : Nat) : BitReader := { r with position := r.position + n }

@[simp] theorem length_unread (r : BitReader) : r.unread.length = r.remaining := by
  have := r.bounded
  simp [unread, remaining]
  omega

@[simp] theorem unread_skip (r : BitReader) (n : Nat) : (r.skip n).unread = r.unread.drop n := by
  simp [unread, skip]

theorem skip_skip (r : BitReader) (m n : Nat) : (r.skip m).skip n = r.skip (m + n) := by
  simp [skip, Nat.add_assoc]

@[simp] theorem remaining_skip (r : BitReader) (n : Nat) :
    (r.skip n).remaining = r.remaining - n := by
  simp only [remaining, skip]
  omega

instance : Cursor BitReader Bool where
  rest := unread
  advance := skip
  rest_advance := unread_skip
  advance_zero _ := rfl
  advance_add r m n := by simp [skip, Nat.add_assoc]

@[simp] theorem unread_new (bytes : List UInt8) : (new bytes).unread = ofBytes bytes := by
  simp [new, unread, Nat.mul_comm]

abbrev Read (α : Type) := Parser BitReader SchcError PanicSite α

/-- `(byte >> shift) & 1` at the cursor, which then moves on. -/
def readBit : Read UInt8 := fun r =>
  match r.bytes[r.position / 8]? with
  | some byte => .ok ((byte >>> UInt8.ofNat (7 - r.position % 8)) &&& 1, r.skip 1)
  | none => panicAt .index

def ensureAvailable (bits : Nat) : Read Unit := fun r =>
  if bits > r.remaining then fail (.bitOutOfBounds r.position bits r.remaining) else .ok ((), r)

def readBitsLoop : Nat → Nat → Read Nat
  | 0, value => pure value
  | bits + 1, value => do
      let bit ← readBit
      readBitsLoop bits ((value <<< 1) ||| bit.toNat)

def readBits (bits : Nat) : Read Nat := do
  BitWriter.validateBitWidth "read_bits" bits
  ensureAvailable bits
  readBitsLoop bits 0

def copyLoop : Nat → BitWriter → Read BitWriter
  | 0, writer => pure writer
  | bits + 1, writer => do
      let bit ← readBit
      copyLoop bits (writer.writeBit (bit != 0))

def copyTo (writer : BitWriter) (bits : Nat) : Read BitWriter := do
  ensureAvailable bits
  copyLoop bits writer

/-- `for bit_index in bit_index..bit_index + bits`, OR-ing each set bit into `out`. -/
def paddedLoop : Nat → Nat → List UInt8 → Read (List UInt8)
  | 0, _, out => pure out
  | bits + 1, bitIndex, out => do
      let bit ← readBit
      if bit = 1 then
        if inside : bitIndex / 8 < out.length then
          paddedLoop bits (bitIndex + 1) (orBit out bitIndex inside)
        else monadLift (panicAt .index : Result (List UInt8))
      else paddedLoop bits (bitIndex + 1) out

def readBytesPadded (bits : Nat) : Read (List UInt8) := do
  ensureAvailable bits
  paddedLoop bits 0 (List.replicate ((bits + 7) / 8) 0)

theorem bit_of_byte (b : UInt8) (i : Nat) :
    (b >>> UInt8.ofNat (7 - i % 8)) &&& 1 = if b.toNat.testBit (7 - i % 8) then 1 else 0 := by
  apply UInt8.toNat_inj.mp
  have shift : 7 - i % 8 < 2 ^ 8 := by omega
  have small : 7 - i % 8 < 8 := by omega
  rw [UInt8.toNat_and, UInt8.toNat_shiftRight, UInt8.toNat_ofNat', Nat.mod_eq_of_lt shift,
    Nat.mod_eq_of_lt small, show (1 : UInt8).toNat = 1 by rfl, Nat.and_one_is_mod,
    Nat.shiftRight_eq_div_pow, Nat.testBit_eq_decide_div_mod_eq]
  rcases Nat.mod_two_eq_zero_or_one (b.toNat / 2 ^ (7 - i % 8)) with even | odd
  · simp [even]
  · simp [odd]

/-- Reading a bit takes the head of the unread bits. -/
theorem readBit_cons {r : BitReader} {b : Bool} {bits : List Bool} (h : r.unread = b :: bits) :
    readBit r = .ok (if b then 1 else 0, r.skip 1) := by
  have bounded := r.bounded
  have present : 0 < r.remaining := by rw [← length_unread, h]; simp
  have inside : r.position < r.bitLen := by simp only [remaining] at present; omega
  have byte : r.position / 8 < r.bytes.length := by omega
  have listed : r.position < (ofBytes r.bytes).length := by simp only [length_ofBytes]; omega
  have head : b = (ofBytes r.bytes)[r.position] := by
    have first : r.unread[0]? = some b := by rw [h]; rfl
    simp only [unread, List.getElem?_drop, Nat.add_zero, List.getElem?_take, inside, ↓reduceIte,
      List.getElem?_eq_getElem listed] at first
    exact (Option.some.inj first).symm
  rw [getElem_ofBytes _ _ _ byte] at head
  simp only [readBit, List.getElem?_eq_getElem byte]
  rw [bit_of_byte, head]

theorem readBitsLoop_run (n value : Nat) (r : BitReader) (enough : n ≤ r.remaining) :
    readBitsLoop n value r =
      .ok (value * 2 ^ n + toNat (r.unread.take n), r.skip n) := by
  induction n generalizing value r with
  | zero => simp [readBitsLoop, skip]
  | succ n ih =>
    cases h : r.unread with
    | nil =>
      have empty := length_unread r
      rw [h] at empty
      simp only [List.length_nil] at empty
      omega
    | cons b bits =>
      have shorter : n ≤ (r.skip 1).remaining := by rw [remaining_skip]; omega
      have tail : (r.skip 1).unread = bits := by rw [unread_skip, h]; rfl
      have long : n ≤ bits.length := by rw [← tail, length_unread]; exact shorter
      rw [readBitsLoop, bind_run, readBit_cons h, ok_bind]
      change readBitsLoop n _ (r.skip 1) = _
      rw [ih _ _ shorter, tail, List.take_succ_cons, toNat_cons, List.length_take,
        Nat.min_eq_left long]
      have digit : value <<< 1 ||| (if b then (1 : UInt8) else 0).toNat = 2 * value + b.toNat := by
        rw [Nat.shiftLeft_eq, Nat.pow_one, Nat.mul_comm]
        cases b
        · simp
        · simpa using (Nat.two_pow_add_eq_or_of_lt (by decide : 1 < 2 ^ 1) value).symm
      rw [digit, skip_skip, Nat.add_comm 1 n, Nat.pow_succ]
      congr 2
      ring

theorem readBits_run (n : Nat) (r : BitReader) :
    readBits n r =
      if n = 0 ∨ n > 64 then fail (.invalidBitLength "read_bits" n)
      else if n > r.remaining then fail (.bitOutOfBounds r.position n r.remaining)
      else .ok (toNat (r.unread.take n), r.skip n) := by
  unfold readBits BitWriter.validateBitWidth
  by_cases width : n = 0 ∨ n > 64
  · simp only [width, ↓reduceIte]
    rfl
  · by_cases short : n > r.remaining
    · simp only [width, ↓reduceIte, short]
      rw [bind_run]
      change ((ensureAvailable n >>= fun _ => readBitsLoop n 0) r) = _
      rw [bind_run]
      simp [ensureAvailable, short, fail]
    · simp only [width, ↓reduceIte, short]
      rw [bind_run]
      change ((ensureAvailable n >>= fun _ => readBitsLoop n 0) r) = _
      rw [bind_run]
      simp only [ensureAvailable, short, ↓reduceIte, ok_bind]
      rw [readBitsLoop_run n 0 r (by omega)]
      simp

theorem copyLoop_run (n : Nat) (writer : BitWriter) (r : BitReader) (enough : n ≤ r.remaining) :
    ∃ w, copyLoop n writer r = .ok (w, r.skip n) ∧ w.bits = writer.bits ++ r.unread.take n := by
  induction n generalizing writer r with
  | zero => exact ⟨writer, rfl, by simp⟩
  | succ n ih =>
    cases h : r.unread with
    | nil =>
      have empty := length_unread r
      rw [h] at empty
      simp only [List.length_nil] at empty
      omega
    | cons b bits =>
      have shorter : n ≤ (r.skip 1).remaining := by rw [remaining_skip]; omega
      have tail : (r.skip 1).unread = bits := by rw [unread_skip, h]; rfl
      obtain ⟨w, ran, wrote⟩ := ih (writer.writeBit ((if b then (1 : UInt8) else 0) != 0)) _ shorter
      refine ⟨w, ?_, ?_⟩
      · rw [copyLoop, bind_run, readBit_cons h, ok_bind]
        change copyLoop n _ (r.skip 1) = _
        rw [ran, skip_skip, Nat.add_comm 1 n]
      · rw [wrote, tail, BitWriter.writeBit_bits, List.take_succ_cons]
        cases b <;> simp

theorem copyTo_run (n : Nat) (writer : BitWriter) (r : BitReader) (enough : n ≤ r.remaining) :
    ∃ w, copyTo writer n r = .ok (w, r.skip n) ∧ w.bits = writer.bits ++ r.unread.take n := by
  obtain ⟨w, ran, wrote⟩ := copyLoop_run n writer r enough
  have available : ¬ n > r.remaining := by omega
  refine ⟨w, ?_, wrote⟩
  rw [copyTo, bind_run]
  simpa [ensureAvailable, available] using ran

theorem copyTo_short {n : Nat} {r : BitReader} (writer : BitWriter) (short : n > r.remaining) :
    copyTo writer n r = fail (.bitOutOfBounds r.position n r.remaining) := by
  rw [copyTo, bind_run]
  simp [ensureAvailable, short, fail]

/-- What the padded loop keeps: the bits taken so far, followed by zeros. -/
theorem paddedLoop_run (n bitIndex : Nat) (out : List UInt8) (taken : List Bool) (r : BitReader)
    (enough : n ≤ r.remaining) (room : bitIndex + n ≤ 8 * out.length)
    (index : taken.length = bitIndex)
    (zeros : ofBytes out = taken ++ List.replicate (8 * out.length - bitIndex) false) :
    ∃ filled, paddedLoop n bitIndex out r = .ok (filled, r.skip n) ∧
      filled.length = out.length ∧
      ofBytes filled = (taken ++ r.unread.take n) ++
        List.replicate (8 * out.length - (bitIndex + n)) false := by
  induction n generalizing bitIndex out taken r with
  | zero => exact ⟨out, rfl, rfl, by simpa using zeros⟩
  | succ n ih =>
    cases h : r.unread with
    | nil =>
      have empty := length_unread r
      rw [h] at empty
      simp only [List.length_nil] at empty
      omega
    | cons b bits =>
      have shorter : n ≤ (r.skip 1).remaining := by rw [remaining_skip]; omega
      have tail : (r.skip 1).unread = bits := by rw [unread_skip, h]; rfl
      have inside : bitIndex / 8 < out.length := by omega
      have split : List.replicate (8 * out.length - bitIndex) false =
          false :: List.replicate (8 * out.length - (bitIndex + 1)) false := by
        rw [← List.replicate_succ]
        congr 1
        omega
      have arranged : 8 * out.length - (bitIndex + 1 + n) = 8 * out.length - (bitIndex + (n + 1)) := by
        omega
      rw [paddedLoop, bind_run, readBit_cons h, ok_bind]
      cases b
      · obtain ⟨filled, ran, length, wrote⟩ := ih (bitIndex + 1) out (taken ++ [false]) _ shorter
          (by omega) (by simp [index]) (by rw [zeros, split]; simp)
        refine ⟨filled, ?_, length, ?_⟩
        · simpa [skip_skip, Nat.add_comm 1 n] using ran
        · simpa [tail, arranged] using wrote
      · obtain ⟨filled, ran, length, wrote⟩ := ih (bitIndex + 1) (orBit out bitIndex inside)
          (taken ++ [true]) _ shorter (by rw [length_orBit]; omega) (by simp [index])
          (by rw [ofBytes_orBit, zeros, split, List.set_append_right _ _ (by omega)]; simp [index])
        refine ⟨filled, ?_, by rw [length, length_orBit], ?_⟩
        · simpa [skip_skip, Nat.add_comm 1 n, inside] using ran
        · simpa [tail, arranged] using wrote

theorem readBytesPadded_run (n : Nat) (r : BitReader) (enough : n ≤ r.remaining) :
    ∃ out, readBytesPadded n r = .ok (out, r.skip n) ∧ out.length = (n + 7) / 8 ∧
      ofBytes out = r.unread.take n ++ List.replicate (8 * out.length - n) false := by
  obtain ⟨out, ran, length, wrote⟩ := paddedLoop_run n 0 (List.replicate ((n + 7) / 8) 0) [] r
    enough (by simp; omega) rfl (by simp [ofBytes_replicate_zero])
  have available : ¬ n > r.remaining := by omega
  refine ⟨out, ?_, by simpa using length, ?_⟩
  · rw [readBytesPadded, bind_run]
    simpa [ensureAvailable, available] using ran
  · rw [length]
    simpa using wrote

theorem readBytesPadded_short {n : Nat} {r : BitReader} (short : n > r.remaining) :
    readBytesPadded n r = fail (.bitOutOfBounds r.position n r.remaining) := by
  rw [readBytesPadded, bind_run]
  simp [ensureAvailable, short, fail]

/-- Whole bytes read at a byte boundary of the unread bits come back as they are. -/
theorem readBytesPadded_bytes {r : BitReader} {bytes : List UInt8} {tail : List Bool}
    (here : r.unread = ofBytes bytes ++ tail) :
    readBytesPadded (8 * bytes.length) r = .ok (bytes, r.skip (8 * bytes.length)) := by
  have enough : 8 * bytes.length ≤ r.remaining := by
    rw [← length_unread, here]
    simp
  obtain ⟨out, ran, length, wrote⟩ := readBytesPadded_run (8 * bytes.length) r enough
  have size : out.length = bytes.length := by omega
  have same : out = bytes := by
    apply ofBytes_injective
    rw [wrote, here, size, List.take_append_of_le_length (by simp), List.take_of_length_le (by simp)]
    simp
  rw [ran, same]

theorem safe_readBits (n : Nat) (r : BitReader) : Safe (readBits n r) := by
  rw [readBits_run]
  exact safe_ite (fun _ => safe_failed _) (fun _ => safe_ite (fun _ => safe_failed _) (fun _ => safe_ok _))

theorem safe_copyTo (writer : BitWriter) (n : Nat) (r : BitReader) : Safe (copyTo writer n r) := by
  by_cases short : n > r.remaining
  · rw [copyTo_short writer short]
    exact safe_failed _
  · obtain ⟨w, ran, _⟩ := copyTo_run n writer r (by omega)
    rw [ran]
    exact safe_ok _

theorem safe_readBytesPadded (n : Nat) (r : BitReader) : Safe (readBytesPadded n r) := by
  by_cases short : n > r.remaining
  · rw [readBytesPadded_short short]
    exact safe_failed _
  · obtain ⟨out, ran, _⟩ := readBytesPadded_run n r (by omega)
    rw [ran]
    exact safe_ok _

theorem take_prefix_unread {r : BitReader} {n : Nat} {xs : List Bool} (h : xs <+: r.unread)
    (length : xs.length = n) : r.unread.take n = xs := by
  subst length
  exact (List.prefix_iff_eq_take.mp h).symm

theorem reads_readBits {bits : List Bool} (positive : 0 < bits.length) (narrow : bits.length ≤ 64) :
    Reads (readBits bits.length) bits (toNat bits) := by
  intro r here
  have enough : bits.length ≤ r.remaining := by rw [← length_unread]; exact here.length_le
  have width : ¬ (bits.length = 0 ∨ bits.length > 64) := by omega
  have available : ¬ bits.length > r.remaining := by omega
  rw [readBits_run]
  simp only [width, ↓reduceIte, available]
  rw [take_prefix_unread here rfl]
  rfl

theorem reads_copyTo (writer : BitWriter) (bits : List Bool) :
    ∃ w : BitWriter, w.bits = writer.bits ++ bits ∧ Reads (copyTo writer bits.length) bits w := by
  obtain ⟨w, wrote⟩ : ∃ w : BitWriter, w.bits = writer.bits ++ bits :=
    ⟨bits.foldl BitWriter.writeBit writer, BitWriter.foldl_writeBit_bits bits writer⟩
  refine ⟨w, wrote, fun r here => ?_⟩
  have enough : bits.length ≤ r.remaining := by
    rw [← length_unread]
    exact here.length_le
  obtain ⟨w', ran, wrote'⟩ := copyTo_run bits.length writer r enough
  have same : w' = w := by
    apply BitWriter.ext_bits
    rw [wrote', wrote, take_prefix_unread here rfl]
  rw [ran, same]
  rfl

theorem streaming_readBits (n : Nat) : Streaming (readBits n) := by
  intro r value r' ran
  rw [readBits_run] at ran
  split at ran
  · simp at ran
  · split at ran
    · simp at ran
    · rename_i width available
      cases ran
      have length : (r.unread.take n).length = n := by simp; omega
      refine ⟨r.unread.take n, List.take_prefix _ _, by rw [length]; rfl, ?_⟩
      have reads : Reads (readBits (r.unread.take n).length) (r.unread.take n) _ :=
        reads_readBits (by omega) (by omega)
      rwa [length] at reads

theorem streaming_readBytesPadded (n : Nat) : Streaming (readBytesPadded n) := by
  intro r value r' ran
  by_cases short : n > r.remaining
  · rw [readBytesPadded_short short] at ran
    simp at ran
  · obtain ⟨out, ran', size, wrote⟩ := readBytesPadded_run n r (by omega)
    rw [ran'] at ran
    cases ran
    have length : (r.unread.take n).length = n := by simp; omega
    refine ⟨r.unread.take n, List.take_prefix _ _, by rw [length]; rfl, ?_⟩
    intro s here
    have enough : n ≤ s.remaining := by
      rw [← length_unread, ← length]
      exact here.length_le
    obtain ⟨out', ran', size', wrote'⟩ := readBytesPadded_run n s enough
    have same : out' = value := by
      apply ofBytes_injective
      rw [wrote', wrote, take_prefix_unread here length, size, size']
    rw [ran', same, length]
    rfl

theorem streaming_copyTo (writer : BitWriter) (n : Nat) : Streaming (copyTo writer n) := by
  intro r value r' ran
  by_cases short : n > r.remaining
  · rw [copyTo_short writer short] at ran
    simp at ran
  · obtain ⟨w, ran', wrote⟩ := copyTo_run n writer r (by omega)
    rw [ran'] at ran
    cases ran
    have length : (r.unread.take n).length = n := by simp; omega
    refine ⟨r.unread.take n, List.take_prefix _ _, by rw [length]; rfl, ?_⟩
    intro s here
    have enough : n ≤ s.remaining := by
      rw [← length_unread, ← length]
      exact here.length_le
    obtain ⟨w', ran', wrote'⟩ := copyTo_run n writer s enough
    have same : w' = value := by
      apply BitWriter.ext_bits
      rw [wrote', wrote, take_prefix_unread here length]
    rw [ran', same, length]
    rfl

end BitReader
end SchcCore
