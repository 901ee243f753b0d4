import SchcCore.Bit.Reader
import SchcCore.Packet.Headers
import SchcCore.Rule.Model

/- Field values, the store of the fields seen so far, and the lengths derived from it. A
   value is determined by its bits: as many bytes as they need, unused bits zero. -/
namespace SchcCore
open BitList Outcome Stream Bytes

structure FieldKey where
  field : FieldRef
  fieldPosition : Nat
  entryIndex : Nat
  scope : PacketScope
  deriving DecidableEq

structure FieldValue where
  bytes : List UInt8
  bitLen : Nat
  size : bytes.length = (bitLen + 7) / 8
  clear : (ofBytes bytes).drop bitLen = List.replicate (8 * bytes.length - bitLen) false

theorem FieldValue.same_iff (a b : FieldValue) :
    a.bytes = b.bytes ∧ a.bitLen = b.bitLen ↔ a = b := by
  cases a
  cases b
  rw [mk.injEq]

instance : DecidableEq FieldValue :=
  fun a b => decidable_of_iff (a.bytes = b.bytes ∧ a.bitLen = b.bitLen) (FieldValue.same_iff a b)

theorem mask_unset_iff (b : UInt8) {unused : Nat} (small : unused < 8) :
    b &&& ((1 <<< UInt8.ofNat unused) - 1) = 0 ↔ b &&& (255 <<< UInt8.ofNat unused) = b := by
  have table : ∀ (s : Fin 8) (n : Fin 256),
      UInt8.ofNat n &&& ((1 <<< UInt8.ofNat s) - 1) = 0 ↔
        UInt8.ofNat n &&& (255 <<< UInt8.ofNat s) = UInt8.ofNat n := by decide +kernel
  have here := table ⟨unused, small⟩ ⟨b.toNat, b.toNat_lt⟩
  simpa only [UInt8.ofNat_toNat] using here

/-- A last byte without a bit under the mask is one that masking leaves alone. -/
theorem maskTail_eq_self_iff {bytes : List UInt8} {bitLen : Nat}
    (size : bytes.length = (bitLen + 7) / 8) (ragged : bytes.length * 8 - bitLen > 0) :
    maskTail bytes bitLen = bytes ↔
      bytes.getLastD 0 &&& ((1 <<< UInt8.ofNat (bytes.length * 8 - bitLen)) - 1) = 0 := by
  have part : bitLen % 8 ≠ 0 := by omega
  have unused : bytes.length * 8 - bitLen = 8 - bitLen % 8 := by omega
  have last : bytes.length - 1 < bytes.length := by omega
  have value : bytes.getLastD 0 = bytes[bytes.length - 1] := by
    rw [List.getLastD_eq_getLast?, List.getLast?_eq_getElem?, List.getElem?_eq_getElem last]
    rfl
  rw [unused, value, mask_unset_iff _ (by omega)]
  simp only [maskTail, part, ne_eq, not_false_eq_true, ↓reduceIte]
  constructor
  · intro same
    have at_last := congrArg (fun bs : List UInt8 => bs[bytes.length - 1]?) same
    simpa [List.getElem?_modify, List.getElem?_eq_getElem last] using at_last
  · intro masked
    apply List.ext_getElem
    · simp
    · intro i hi hi'
      rw [List.getElem_modify]
      split
      · rename_i here
        subst here
        exact masked
      · rfl

theorem clear_iff {bytes : List UInt8} {bitLen : Nat} (size : bytes.length = (bitLen + 7) / 8) :
    (ofBytes bytes).drop bitLen = List.replicate (8 * bytes.length - bitLen) false ↔
      maskTail bytes bitLen = bytes := by
  have masked := ofBytes_maskTail bytes bitLen size
  constructor
  · intro clear
    apply ofBytes_injective
    rw [masked, ← clear, List.take_append_drop]
  · intro same
    rw [same] at masked
    have front : ((ofBytes bytes).take bitLen).length = bitLen := by
      simp
      omega
    rw [masked, List.drop_append, List.drop_of_length_le (by omega), List.nil_append, front]
    simp

/-- A last byte without a bit under the mask leaves only zeros after the value. -/
theorem clear_of_unset {bytes : List UInt8} {bitLen : Nat} (size : bytes.length = (bitLen + 7) / 8)
    (unset : bytes.length * 8 - bitLen > 0 →
      bytes.getLastD 0 &&& ((1 <<< UInt8.ofNat (bytes.length * 8 - bitLen)) - 1) = 0) :
    (ofBytes bytes).drop bitLen = List.replicate (8 * bytes.length - bitLen) false := by
  rw [clear_iff size]
  by_cases ragged : bytes.length * 8 - bitLen > 0
  · exact (maskTail_eq_self_iff size ragged).mpr (unset ragged)
  · have whole : ¬ bitLen % 8 ≠ 0 := by omega
    simp [maskTail, whole]

namespace FieldValue

theorem size_nil : ([] : List UInt8).length = (0 + 7) / 8 := rfl

theorem clear_nil :
    (ofBytes []).drop 0 = List.replicate (8 * ([] : List UInt8).length - 0) false := rfl

def fromBytes (bytes : List UInt8) (bitLen : Nat) : Result FieldValue :=
  if outside : bitLen > bytes.length * 8 then
    fail (.invalidBitLength "field_value_from_bytes" bitLen)
  else if empty : bitLen = 0 then .ok ⟨[], 0, size_nil, clear_nil⟩
  else
    let kept := bytes.take ((bitLen + 7) / 8)
    let unusedBits := kept.length * 8 - bitLen
    if set : unusedBits > 0 ∧ kept.getLastD 0 &&& ((1 <<< UInt8.ofNat unusedBits) - 1) ≠ 0 then
      invalidResidue "field value has non-zero unused bits"
    else
      have size : kept.length = (bitLen + 7) / 8 := by
        simp only [kept, List.length_take]
        omega
      .ok ⟨kept, bitLen, size, clear_of_unset size fun unused => by
        by_contra masked
        exact set ⟨unused, masked⟩⟩

def fromU64 (value bitLen : Nat) : Result FieldValue :=
  if bitLen > 64 then fail (.invalidBitLength "field_value_from_u64" bitLen)
  else if bitLen < 64 ∧ value ≥ 1 <<< bitLen then
    fail (.invalidBitLength "field_value_from_u64_fit" bitLen)
  else if bitLen > 0 then do
    let writer ← BitWriter.new.writeBits value bitLen
    fromBytes writer.toVec bitLen
  else fromBytes BitWriter.new.toVec bitLen

def readFrom (bitLen : Nat) : BitReader.Read FieldValue := do
  let bytes ← BitReader.readBytesPadded bitLen
  monadLift (fromBytes bytes bitLen)

def writeRangeTo (v : FieldValue) (writer : BitWriter) (start bits : Nat) : Result BitWriter :=
  if start > v.bitLen ∨ bits > v.bitLen - start then
    fail (.bitOutOfBounds start bits (v.bitLen - start))
  else do
    let reader ← (BitReader.new v.bytes).setPosition start
    let (writer, _) ← BitReader.copyTo writer bits reader
    .ok writer

def writeTo (v : FieldValue) (writer : BitWriter) : Result BitWriter :=
  v.writeRangeTo writer 0 v.bitLen

def toU64 (v : FieldValue) : Result Nat :=
  if v.bitLen > 64 then fail (.invalidBitLength "field_value_to_u64" v.bitLen)
  else if v.bitLen = 0 then .ok 0
  else do
    let (value, _) ← BitReader.readBits v.bitLen (BitReader.new v.bytes)
    .ok value

/-- The bit list a value stands for. -/
def bits (v : FieldValue) : List Bool := (ofBytes v.bytes).take v.bitLen

def ofWriter (w : BitWriter) : FieldValue := ⟨w.bytes, w.bitLen, w.size, w.clear⟩

/-- The value with these bits. -/
def ofBits (bits : List Bool) : FieldValue :=
  ofWriter (bits.foldl BitWriter.writeBit BitWriter.new)

@[simp] theorem length_bits (v : FieldValue) : v.bits.length = v.bitLen := by
  have := v.size
  simp [bits]
  omega

theorem ofBytes_bytes (v : FieldValue) :
    ofBytes v.bytes = v.bits ++ List.replicate (8 * v.bytes.length - v.bitLen) false := by
  rw [bits, ← v.clear, List.take_append_drop]

theorem ext_bits {a b : FieldValue} (same : a.bits = b.bits) : a = b := by
  have lengths : a.bitLen = b.bitLen := by rw [← length_bits, same, length_bits]
  have bytes : a.bytes = b.bytes := by
    apply ofBytes_injective
    rw [ofBytes_bytes, ofBytes_bytes, same, a.size, b.size, lengths]
  cases a
  cases b
  simp_all

@[simp] theorem bits_ofWriter (w : BitWriter) : (ofWriter w).bits = w.bits := rfl

@[simp] theorem bits_ofBits (bits : List Bool) : (ofBits bits).bits = bits := by
  rw [ofBits, bits_ofWriter, BitWriter.foldl_writeBit_bits]
  rfl

@[simp] theorem bitLen_ofBits (bits : List Bool) : (ofBits bits).bitLen = bits.length := by
  rw [← length_bits, bits_ofBits]

@[simp] theorem ofBits_bits (v : FieldValue) : ofBits v.bits = v := ext_bits (bits_ofBits _)

/-- Bytes whose tail past `bitLen` is zero make the value of their first `bitLen` bits. -/
theorem fromBytes_of_zeros {bytes : List UInt8} {bits : List Bool}
    (spelled : ofBytes bytes = bits ++ List.replicate (8 * bytes.length - bits.length) false)
    (size : bytes.length = (bits.length + 7) / 8) :
    fromBytes bytes bits.length = .ok (ofBits bits) := by
  unfold fromBytes
  have inside : ¬ bits.length > bytes.length * 8 := by omega
  rw [dif_neg inside]
  by_cases empty : bits.length = 0
  · rw [dif_pos empty]
    congr 1
    apply ext_bits
    rw [bits_ofBits, List.length_eq_zero_iff.mp empty]
    rfl
  · rw [dif_neg empty]
    have kept : bytes.take ((bits.length + 7) / 8) = bytes := by
      rw [← size, List.take_length]
    have clear : (ofBytes bytes).drop bits.length =
        List.replicate (8 * bytes.length - bits.length) false := by
      rw [spelled, List.drop_left]
    have last : ¬ (bytes.length * 8 - bits.length > 0 ∧
        bytes.getLastD 0 &&& ((1 <<< UInt8.ofNat (bytes.length * 8 - bits.length)) - 1) ≠ 0) := by
      rintro ⟨unused, set⟩
      exact set ((maskTail_eq_self_iff size unused).mp ((clear_iff size).mp clear))
    simp only [kept, dif_neg last]
    congr 1
    apply ext_bits
    rw [bits_ofBits]
    simp only [FieldValue.bits]
    rw [spelled, List.take_left]

/-- Whole bytes are a value as they are. -/
theorem fromBytes_whole (bytes : List UInt8) :
    fromBytes bytes (8 * bytes.length) = .ok (ofBits (ofBytes bytes)) := by
  have spelled : fromBytes bytes (ofBytes bytes).length = .ok (ofBits (ofBytes bytes)) :=
    fromBytes_of_zeros (by simp) (by simp; omega)
  rwa [length_ofBytes] at spelled

@[simp] theorem bytes_ofBits_ofBytes (bytes : List UInt8) : (ofBits (ofBytes bytes)).bytes = bytes := by
  apply ofBytes_injective
  have size := (ofBits (ofBytes bytes)).size
  rw [bitLen_ofBits, length_ofBytes] at size
  rw [ofBytes_bytes, bits_ofBits, bitLen_ofBits, length_ofBytes]
  have exact : (ofBits (ofBytes bytes)).bytes.length = bytes.length := by omega
  simp [exact]

theorem fromBytes_toVec (w : BitWriter) : fromBytes w.toVec w.bitLen = .ok (ofBits w.bits) := by
  have size := w.size
  have spelled : fromBytes w.bytes w.bits.length = .ok (ofBits w.bits) :=
    fromBytes_of_zeros (by rw [w.length_bits]; exact w.ofBytes_bytes)
      (by rw [w.length_bits]; exact size)
  rwa [w.length_bits, ← w.toVec_eq] at spelled

theorem fromBytes_bitLen {bytes : List UInt8} {bitLen : Nat} {v : FieldValue}
    (made : fromBytes bytes bitLen = .ok v) :
    bitLen ≤ bytes.length * 8 ∧ v.bits = (ofBytes bytes).take bitLen := by
  unfold fromBytes at made
  split at made
  · simp at made
  · split at made
    · rename_i empty
      cases made
      exact ⟨by omega, by rw [empty]; rfl⟩
    · dsimp only at made
      split at made
      · simp at made
      · cases made
        refine ⟨by omega, ?_⟩
        simp only [FieldValue.bits]
        rw [← take_ofBytes, List.take_take]
        congr 1
        omega

theorem fromU64_eq {value bitLen : Nat} (narrow : bitLen ≤ 64) (fits : value < 2 ^ bitLen) :
    fromU64 value bitLen = .ok (ofBits (ofNat bitLen value)) := by
  have wide : ¬ bitLen > 64 := by omega
  have large : ¬ (bitLen < 64 ∧ value ≥ 1 <<< bitLen) := by
    rw [Nat.one_shiftLeft]
    omega
  simp only [fromU64, wide, ↓reduceIte, large]
  by_cases empty : bitLen > 0
  · rw [if_pos empty, BitWriter.writeBits_ok _ empty narrow fits, ok_bind]
    have bits := BitWriter.writeShifts_bits BitWriter.new value bitLen
    rw [BitWriter.bits_new, List.nil_append] at bits
    have length : (BitWriter.new.writeShifts value bitLen).bitLen = bitLen := by
      rw [← BitWriter.length_bits, bits, length_ofNat]
    have made := fromBytes_toVec (BitWriter.new.writeShifts value bitLen)
    rwa [length, bits] at made
  · have zero : bitLen = 0 := by omega
    subst zero
    rfl

theorem fromU64_bits {value bitLen : Nat} {v : FieldValue} (made : fromU64 value bitLen = .ok v) :
    bitLen ≤ 64 ∧ (bitLen = 64 ∨ value < 2 ^ bitLen) := by
  simp only [fromU64, reject_eq_ok (fail_ne_ok _), Nat.one_shiftLeft] at made
  obtain ⟨wide, large, -⟩ := made
  omega

theorem toU64_eq {v : FieldValue} (narrow : v.bitLen ≤ 64) : v.toU64 = .ok (toNat v.bits) := by
  have wide : ¬ v.bitLen > 64 := by omega
  simp only [toU64, wide, ↓reduceIte]
  by_cases empty : v.bitLen = 0
  · have none : v.bits = [] := List.length_eq_zero_iff.mp (by rw [length_bits, empty])
    simp [empty, none]
  · have here : v.bits <+: (BitReader.new v.bytes).unread := by
      rw [BitReader.unread_new, ofBytes_bytes]
      exact List.prefix_append _ _
    have reads : Reads (BitReader.readBits v.bits.length) v.bits (toNat v.bits) :=
      BitReader.reads_readBits (by rw [length_bits]; omega) (by rw [length_bits]; omega)
    have read := reads _ here
    rw [length_bits] at read
    simp only [empty, ↓reduceIte, read, ok_bind]

theorem toU64_ok {v : FieldValue} {n : Nat} (read : v.toU64 = .ok n) :
    v.bitLen ≤ 64 ∧ n = toNat v.bits := by
  by_cases wide : v.bitLen > 64
  · simp [toU64, wide] at read
  · rw [toU64_eq (by omega)] at read
    cases read
    exact ⟨by omega, rfl⟩

theorem toU64_ofBits {width value : Nat} (narrow : width ≤ 64) (fits : value < 2 ^ width) :
    (ofBits (ofNat width value)).toU64 = .ok value := by
  rw [toU64_eq (by simpa using narrow), bits_ofBits, toNat_ofNat fits]

theorem toU64_lt {v : FieldValue} {n : Nat} (read : v.toU64 = .ok n) : n < 2 ^ 64 := by
  obtain ⟨narrow, rfl⟩ := toU64_ok read
  calc toNat v.bits < 2 ^ v.bits.length := toNat_lt v.bits
    _ ≤ 2 ^ 64 := Nat.pow_le_pow_right (by decide) (by simpa using narrow)

theorem writeRangeTo_eq (v : FieldValue) (writer : BitWriter) {start bits : Nat}
    (inside : start + bits ≤ v.bitLen) :
    ∃ w, v.writeRangeTo writer start bits = .ok w ∧
      w.bits = writer.bits ++ (v.bits.drop start).take bits := by
  have size := v.size
  have within : ¬ (start > v.bitLen ∨ bits > v.bitLen - start) := by omega
  have position : ¬ start > v.bytes.length * 8 := by omega
  have made : (BitReader.new v.bytes).setPosition start = .ok ((BitReader.new v.bytes).skip start) := by
    simp [BitReader.setPosition, BitReader.new, position, BitReader.skip]
  have enough : bits ≤ ((BitReader.new v.bytes).skip start).remaining := by
    rw [BitReader.remaining_skip]
    simp only [BitReader.remaining, BitReader.new]
    omega
  obtain ⟨w, ran, wrote⟩ := BitReader.copyTo_run bits writer _ enough
  refine ⟨w, ?_, ?_⟩
  · simp only [writeRangeTo, within, ↓reduceIte, made, ok_bind, ran]
  · rw [wrote, BitReader.unread_skip, BitReader.unread_new, ofBytes_bytes, List.drop_append,
      List.take_append_of_le_length (by simp; omega)]

theorem writeRangeTo_bits {v : FieldValue} {writer w : BitWriter} {start bits : Nat}
    (wrote : v.writeRangeTo writer start bits = .ok w) :
    start + bits ≤ v.bitLen ∧ w.bits = writer.bits ++ (v.bits.drop start).take bits := by
  by_cases inside : start + bits ≤ v.bitLen
  · obtain ⟨w', ran, wrote'⟩ := writeRangeTo_eq v writer inside
    rw [ran] at wrote
    cases wrote
    exact ⟨inside, wrote'⟩
  · have outside : start > v.bitLen ∨ bits > v.bitLen - start := by omega
    simp [writeRangeTo, outside] at wrote

theorem safe_fromBytes (bytes : List UInt8) (bitLen : Nat) : Safe (fromBytes bytes bitLen) := by
  unfold fromBytes
  split
  · exact safe_failed _
  · split
    · exact safe_ok _
    · dsimp only
      split
      · exact safe_invalidResidue _
      · exact safe_ok _

theorem safe_fromU64 (value bitLen : Nat) : Safe (fromU64 value bitLen) := by
  refine safe_ite (fun _ => safe_failed _) fun _ => safe_ite (fun _ => safe_failed _) fun _ => ?_
  refine safe_ite (fun _ => ?_) fun _ => safe_fromBytes _ _
  exact safe_bind (BitWriter.safe_writeBits _ _ _) fun _ _ => safe_fromBytes _ _

theorem safe_toU64 (v : FieldValue) : Safe v.toU64 := by
  refine safe_ite (fun _ => safe_failed _) fun _ => safe_ite (fun _ => safe_ok _) fun _ => ?_
  exact safe_bind (BitReader.safe_readBits _ _) fun _ _ => safe_ok _

theorem safe_writeRangeTo (v : FieldValue) (writer : BitWriter) (start bits : Nat) :
    Safe (v.writeRangeTo writer start bits) := by
  by_cases inside : start + bits ≤ v.bitLen
  · obtain ⟨w, ran, _⟩ := writeRangeTo_eq v writer inside
    rw [ran]
    exact safe_ok _
  · have outside : start > v.bitLen ∨ bits > v.bitLen - start := by omega
    simp only [writeRangeTo, outside, ↓reduceIte]
    exact safe_failed _

/-- Reading `bitLen` bits yields the value of exactly those bits. -/
theorem readFrom_run (bitLen : Nat) (r : BitReader) (enough : bitLen ≤ r.remaining) :
    readFrom bitLen r = .ok (ofBits (r.unread.take bitLen), r.skip bitLen) := by
  obtain ⟨out, ran, size, wrote⟩ := BitReader.readBytesPadded_run bitLen r enough
  have length : (r.unread.take bitLen).length = bitLen := by simp; omega
  have made : fromBytes out (r.unread.take bitLen).length = .ok (ofBits (r.unread.take bitLen)) :=
    fromBytes_of_zeros (by rw [length]; exact wrote) (by rw [length]; exact size)
  rw [length] at made
  rw [readFrom, bind_run, ran, ok_bind, made]
  rfl

theorem readFrom_short {bitLen : Nat} {r : BitReader} (short : bitLen > r.remaining) :
    readFrom bitLen r = fail (.bitOutOfBounds r.position bitLen r.remaining) := by
  rw [readFrom, bind_run, BitReader.readBytesPadded_short short]
  rfl

theorem reads_readFrom (bits : List Bool) : Reads (readFrom bits.length) bits (ofBits bits) := by
  intro r here
  have enough : bits.length ≤ r.remaining := by
    rw [← BitReader.length_unread]
    exact here.length_le
  rw [readFrom_run _ r enough, BitReader.take_prefix_unread here rfl]
  rfl

theorem streaming_readFrom (bitLen : Nat) : Streaming (readFrom bitLen) :=
  streaming_bind (BitReader.streaming_readBytesPadded bitLen) fun _ => streaming_lift _

theorem safe_readFrom (bitLen : Nat) (r : BitReader) : Safe (readFrom bitLen r) := by
  by_cases short : bitLen > r.remaining
  · rw [readFrom_short short]
    exact safe_failed _
  · rw [readFrom_run bitLen r (by omega)]
    exact safe_ok _

end FieldValue

/-- Target bytes read as a value of `bitLen` bits. The compressor and the decompressor each
    have this function. -/
def bytesAsValue (bytes : List UInt8) (bitLen : Nat) : Result FieldValue :=
  let byteLen := (bitLen + 7) / 8
  if bytes.length > byteLen then
    invalidResidue s!"target value has {bytes.length} bytes but field is {bitLen} bits"
  else if bitLen ≤ 64 then FieldValue.fromU64 (BigEndian.value bytes) bitLen
  else FieldValue.fromBytes (bytes ++ List.replicate (byteLen - bytes.length) 0) bitLen

def targetAsValue (target : TargetValue) (bitLen : Nat) : Result (Option FieldValue) :=
  match target with
  | .bytes bytes => do
      let value ← bytesAsValue bytes bitLen
      .ok (some value)
  | _ => .ok none

/-- `while max_index > 0`: the bits of the largest index. -/
def countBits : Nat → Nat → Nat
  | 0, _ => 0
  | rounds + 1, maxIndex => if maxIndex > 0 then 1 + countBits rounds (maxIndex >>> 1) else 0

/-- The width of an index into a mapping of `len` values. -/
def mappingIndexBits (len : Nat) : Nat := if len ≤ 1 then 0 else countBits (len - 1) (len - 1)

abbrev FieldStore := List (FieldKey × FieldValue)

namespace FieldStore

def insert (store : FieldStore) (key : FieldKey) (value : FieldValue) : FieldStore :=
  store ++ [(key, value)]

def byEntryIndex (store : FieldStore) (entryIndex : Nat) : Option FieldValue :=
  store.findSome? (fun entry => if entry.1.entryIndex = entryIndex then some entry.2 else none)

/-- The first stored value for `field` in a packet scope. -/
def firstByFieldScope (store : FieldStore) (field : FieldRef) (scope : PacketScope) :
    Option FieldValue :=
  store.findSome? (fun entry =>
    if entry.1.field = field ∧ entry.1.scope = scope then some entry.2 else none)

def containsFieldScope (store : FieldStore) (field : FieldRef) (scope : PacketScope) : Bool :=
  (store.firstByFieldScope field scope).isSome

/-- `by_field(field).next().is_some()` -/
def containsField (store : FieldStore) (field : FieldRef) : Bool :=
  store.any (fun entry => entry.1.field = field)

/-- Whether a generic or protocol payload is stored in any scope. -/
def hasExplicitPayload (store : FieldStore) : Bool :=
  store.any (fun entry => match entry.1.field with
    | .payload => true
    | .udp (.known .udpPayload) => true
    | .coap (.known .coapPayload) => true
    | .icmpv6 (.known .icmpv6Payload) => true
    | _ => false)

end FieldStore

structure LengthResolver where
  tokenLength : Option Nat
  deriving DecidableEq

namespace LengthResolver

def new : LengthResolver := ⟨none⟩

def setTokenLength (_ : LengthResolver) (tokenLength : Nat) : LengthResolver := ⟨some tokenLength⟩

/-- A byte count times eight as `usize` computes it in a release build. -/
def bytesToBits (bytes : Nat) : Nat := bytes * 8 % 2 ^ 64

def resolve (lengths : LengthResolver) (length : FieldLength) (fields : FieldStore) : Result Nat :=
  match length with
  | .fixedBits bits => .ok bits
  | .tokenLength =>
      match lengths.tokenLength with
      | some bytes => .ok (bytesToBits bytes)
      | none => invalidResidue "CoAP TKL is not available"
  | .fromPreviousField entryIndex unit =>
      match fields.byEntryIndex entryIndex with
      | none => invalidResidue s!"field length references missing entry {entryIndex}"
      | some value => do
          let value ← value.toU64
          match unit with
          | .bytes => .ok (bytesToBits value)
          | .bits => .ok value
  | .variableBytes => invalidResidue "variable field length must be read from residue"
  | .variableBits => invalidResidue "variable field length must be read from residue"
  | .functionSid sid => invalidResidue s!"unsupported field-length function SID {sid}"

theorem safe_resolve (lengths : LengthResolver) (length : FieldLength) (fields : FieldStore) :
    Safe (lengths.resolve length fields) := by
  unfold resolve
  split
  · exact safe_ok _
  · split
    · exact safe_ok _
    · exact safe_invalidResidue _
  · split
    · exact safe_invalidResidue _
    · refine safe_bind (FieldValue.safe_toU64 _) fun _ _ => ?_
      split
      · exact safe_ok _
      · exact safe_ok _
  · exact safe_invalidResidue _
  · exact safe_invalidResidue _
  · exact safe_failed _

end LengthResolver

def writeVariableLengthPrefix (writer : BitWriter) (value : Nat) : Result BitWriter := do
  if value ≤ 14 then writer.writeBits value 4
  else if value ≤ 254 then
    let writer ← writer.writeBits 15 4
    writer.writeBits value 8
  else if value ≤ 65535 then
    let writer ← writer.writeBits 15 4
    let writer ← writer.writeBits 255 8
    writer.writeBits value 16
  else invalidResidue s!"variable length {value} is too large"

def readVariableLengthPrefix : BitReader.Read Nat := do
  let first ← BitReader.readBits 4
  if first < 15 then pure first
  else do
    let second ← BitReader.readBits 8
    if second < 255 then pure second else BitReader.readBits 16

/-- The prefix that announces a length. -/
def variableLengthPrefix (value : Nat) : List Bool :=
  if value ≤ 14 then ofNat 4 value
  else if value ≤ 254 then ofNat 4 15 ++ ofNat 8 value
  else ofNat 4 15 ++ ofNat 8 255 ++ ofNat 16 value

theorem writeVariableLengthPrefix_bits {writer w : BitWriter} {value : Nat}
    (wrote : writeVariableLengthPrefix writer value = .ok w) :
    value ≤ 65535 ∧ w.bits = writer.bits ++ variableLengthPrefix value := by
  unfold writeVariableLengthPrefix at wrote
  split at wrote
  · rename_i short
    refine ⟨by omega, ?_⟩
    rw [BitWriter.writeBits_bits wrote, variableLengthPrefix, if_pos short]
  · split at wrote
    · rename_i long medium
      rw [bind_eq_ok] at wrote
      obtain ⟨w₁, first, wrote⟩ := wrote
      refine ⟨by omega, ?_⟩
      rw [BitWriter.writeBits_bits wrote, BitWriter.writeBits_bits first, variableLengthPrefix,
        if_neg long, if_pos medium, List.append_assoc]
    · split at wrote
      · rename_i long longer last
        simp only [bind_eq_ok] at wrote
        obtain ⟨w₁, first, w₂, second, wrote⟩ := wrote
        refine ⟨last, ?_⟩
        rw [BitWriter.writeBits_bits wrote, BitWriter.writeBits_bits second,
          BitWriter.writeBits_bits first, variableLengthPrefix, if_neg long, if_neg longer]
        simp only [List.append_assoc]
      · simp at wrote

theorem reads_readBits_ofNat {width value : Nat} (positive : 0 < width) (narrow : width ≤ 64)
    (fits : value < 2 ^ width) : Reads (BitReader.readBits width) (ofNat width value) value := by
  have reads : Reads (BitReader.readBits (ofNat width value).length) (ofNat width value)
      (toNat (ofNat width value)) :=
    BitReader.reads_readBits (by simpa using positive) (by simpa using narrow)
  rwa [length_ofNat, toNat_ofNat fits] at reads

/-- A written length prefix reads back as the length, in each of its three sizes. -/
theorem reads_readVariableLengthPrefix {value : Nat} (bounded : value ≤ 65535) :
    Reads readVariableLengthPrefix (variableLengthPrefix value) value := by
  unfold readVariableLengthPrefix variableLengthPrefix
  by_cases short : value ≤ 14
  · have below : value < 15 := by omega
    rw [if_pos short, ← List.append_nil (ofNat 4 value)]
    refine reads_bind (reads_readBits_ofNat (by decide) (by decide) (by omega)) ?_
    simp only [below, ↓reduceIte]
    exact reads_pure value
  · rw [if_neg short]
    by_cases medium : value ≤ 254
    · have below : value < 255 := by omega
      rw [if_pos medium]
      refine reads_bind (reads_readBits_ofNat (by decide) (by decide) (by decide)) ?_
      rw [if_neg (by decide), ← List.append_nil (ofNat 8 value)]
      refine reads_bind (reads_readBits_ofNat (by decide) (by decide) (by omega)) ?_
      simp only [below, ↓reduceIte]
      exact reads_pure value
    · rw [if_neg medium, List.append_assoc]
      refine reads_bind (reads_readBits_ofNat (by decide) (by decide) (by decide)) ?_
      rw [if_neg (by decide)]
      refine reads_bind (reads_readBits_ofNat (by decide) (by decide) (by decide)) ?_
      rw [if_neg (by decide)]
      exact reads_readBits_ofNat (by decide) (by decide) (by omega)

theorem streaming_readVariableLengthPrefix : Streaming readVariableLengthPrefix := by
  refine streaming_bind (BitReader.streaming_readBits 4) fun _ => ?_
  refine streaming_ite (fun _ => streaming_pure _) fun _ => ?_
  refine streaming_bind (BitReader.streaming_readBits 8) fun _ => ?_
  exact streaming_ite (fun _ => streaming_pure _) fun _ => BitReader.streaming_readBits 16

end SchcCore
