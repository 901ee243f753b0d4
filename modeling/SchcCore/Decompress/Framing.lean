import SchcCore.Decompress.NoCompression
import SchcCore.Packet.Rebuild

/- The two halves of a decompression: framing reads the datagram up to its end, finishing
   checks or rebuilds the packet. Framing reads the same fields from every longer datagram
   and ends a whole number of bytes behind them; only finishing can overflow the stack. -/
namespace SchcCore
open Outcome BitList FieldStore Stream

/- Decoding streams: what is read depends on the bits read only. -/

theorem streaming_decodeFieldLen (field : FieldRule) (lengths : LengthResolver)
    (fields : FieldStore) : Streaming (decodeFieldLen field lengths fields) := by
  unfold decodeFieldLen
  split
  · exact streaming_lift _
  · exact streaming_lift _
  · exact streaming_pure _
  · exact streaming_pure _
  · exact streaming_bind streaming_readVariableLengthPrefix fun _ => streaming_pure _
  · exact streaming_readVariableLengthPrefix
  · exact streaming_lift _

theorem streaming_decodeMappingSent (target : TargetValue) : Streaming (decodeMappingSent target) := by
  unfold decodeMappingSent
  split
  · exact streaming_ite (fun _ => streaming_lift _) fun _ =>
      streaming_bind (BitReader.streaming_readBits _) fun _ => streaming_lift _
  · exact streaming_lift _

theorem streaming_decodeLsb (field : FieldRule) (bitLen : Nat) :
    Streaming (decodeLsb field bitLen) := by
  unfold decodeLsb
  split
  · exact streaming_ite (fun _ => streaming_lift _) fun _ =>
      streaming_bind (streaming_lift _) fun _ =>
        streaming_bind (BitReader.streaming_copyTo _ _) fun _ => streaming_lift _
  · exact streaming_lift _

theorem streaming_decodeFieldValue (field : FieldRule) (bitLen : Nat) (direction : Direction)
    (provider : Option ExternalValueProvider) :
    Streaming (decodeFieldValue field bitLen direction provider) := by
  unfold decodeFieldValue
  split
  · exact streaming_lift _
  · exact FieldValue.streaming_readFrom _
  · exact streaming_decodeMappingSent _
  · exact streaming_decodeLsb _ _
  · exact streaming_lift _
  · exact streaming_lift _
  · exact streaming_lift _

theorem streaming_decodeField (field : FieldRule) (direction : Direction)
    (provider : Option ExternalValueProvider) (state : DecodeState) :
    Streaming (decodeField field direction provider state) := by
  unfold decodeField
  refine streaming_ite (fun _ => streaming_pure _) fun _ =>
    streaming_ite (fun _ => streaming_pure _) fun _ =>
    streaming_ite (fun _ => streaming_lift _) fun _ =>
    streaming_ite (fun _ => streaming_lift _) fun _ => ?_
  exact streaming_bind (streaming_decodeFieldLen _ _ _) fun _ =>
    streaming_bind (streaming_decodeFieldValue _ _ _ _) fun _ =>
    streaming_bind (streaming_lift _) fun _ => streaming_pure _

theorem streaming_decodeFieldList (direction : Direction) (provider : Option ExternalValueProvider)
    (fields : List FieldRule) (state : DecodeState) :
    Streaming (decodeFieldList direction provider fields state) := by
  induction fields generalizing state with
  | nil => exact streaming_pure _
  | cons field fields ih => exact streaming_bind (streaming_decodeField _ _ _ _) fun next => ih next

theorem streaming_decodeFields (rule : Rule) (direction : Direction)
    (provider : Option ExternalValueProvider) : Streaming (decodeFields rule direction provider) :=
  streaming_bind (streaming_decodeFieldList _ _ _ _) fun _ => streaming_pure _

/- Decoding never panics. -/

theorem safe_bytesAsValue (bytes : List UInt8) (bitLen : Nat) : Safe (bytesAsValue bytes bitLen) :=
  safe_ite (fun _ => safe_invalidResidue _) fun _ =>
    safe_ite (fun _ => FieldValue.safe_fromU64 _ _) fun _ => FieldValue.safe_fromBytes _ _

theorem safe_targetAsValue (target : TargetValue) (bitLen : Nat) :
    Safe (targetAsValue target bitLen) := by
  unfold targetAsValue
  split
  · exact safe_bind (safe_bytesAsValue _ _) fun _ _ => safe_ok _
  · exact safe_ok _

theorem safely_readVariableLengthPrefix : Safely readVariableLengthPrefix :=
  safely_bind (BitReader.safe_readBits _) fun _ => safely_ite (fun _ => safely_pure _) fun _ =>
    safely_bind (BitReader.safe_readBits _) fun _ => safely_ite (fun _ => safely_pure _) fun _ =>
      BitReader.safe_readBits _

theorem safely_decodeFieldLen (field : FieldRule) (lengths : LengthResolver)
    (fields : FieldStore) : Safely (decodeFieldLen field lengths fields) := by
  have fixed : Safe (notSentTargetBitLen field) := by
    unfold notSentTargetBitLen
    split
    · exact safe_ok _
    · exact safe_invalidResidue _
  unfold decodeFieldLen
  split
  · exact safely_lift fixed
  · exact safely_lift fixed
  · exact safely_pure _
  · exact safely_pure _
  · exact safely_bind safely_readVariableLengthPrefix fun _ => safely_pure _
  · exact safely_readVariableLengthPrefix
  · exact safely_lift (LengthResolver.safe_resolve _ _ _)

theorem safely_decodeMappingSent (target : TargetValue) : Safely (decodeMappingSent target) := by
  have entry : ∀ values index, Safe (mappingValue values index) := by
    intro values index
    unfold mappingValue
    split
    · exact safe_bytesAsValue _ _
    · exact safe_invalidResidue _
  unfold decodeMappingSent
  split
  · exact safely_ite (fun _ => safely_lift (entry _ _)) fun _ =>
      safely_bind (BitReader.safe_readBits _) fun _ => safely_lift (entry _ _)
  · exact safely_lift (safe_invalidResidue _)

theorem safely_decodeLsb (field : FieldRule) (bitLen : Nat) : Safely (decodeLsb field bitLen) := by
  have leading : ∀ msbBits, Safe (lsbTarget field bitLen msbBits) := by
    intro msbBits
    refine safe_bind (safe_targetAsValue _ _) fun target _ => ?_
    cases target with
    | some target => exact FieldValue.safe_writeRangeTo _ _ _ _
    | none => exact safe_invalidResidue _
  unfold decodeLsb
  split
  · exact safely_ite (fun _ => safely_lift (safe_failed _)) fun _ =>
      safely_bind (safely_lift (leading _)) fun _ =>
        safely_bind (BitReader.safe_copyTo _ _) fun _ =>
          safely_lift (FieldValue.safe_fromBytes _ _)
  · exact safely_lift (safe_invalidResidue _)

theorem safe_externalValue (field : FieldRule) (bitLen : Nat) (direction : Direction)
    (provider : Option ExternalValueProvider) :
    Safe (externalValue field bitLen direction provider) := by
  unfold externalValue
  split
  · exact safe_invalidResidue _
  · split
    · exact safe_failed _
    · exact safe_ite (fun _ => safe_invalidResidue _) fun _ => safe_bytesAsValue _ _

theorem safely_decodeFieldValue {field : FieldRule} (decoded : field.action ≠ .compute)
    (bitLen : Nat) (direction : Direction) (provider : Option ExternalValueProvider) :
    Safely (decodeFieldValue field bitLen direction provider) := by
  unfold decodeFieldValue
  split
  · refine safely_lift (safe_bind (safe_targetAsValue _ _) fun value _ => ?_)
    cases value with
    | some value => exact safe_ok _
    | none => exact safe_invalidResidue _
  · exact FieldValue.safe_readFrom _
  · exact safely_decodeMappingSent _
  · exact safely_decodeLsb _ _
  · exact safely_lift (safe_externalValue _ _ _ _)
  · exact safely_lift (safe_externalValue _ _ _ _)
  · exact absurd ‹_› decoded

theorem safely_decodeField (field : FieldRule) (direction : Direction)
    (provider : Option ExternalValueProvider) (state : DecodeState) :
    Safely (decodeField field direction provider state) := by
  have lengths : ∀ value, Safe (decodedLengths state.lengths field.field value) := fun value =>
    safe_ite (fun _ => safe_bind (FieldValue.safe_toU64 _) fun _ _ => safe_ok _) fun _ => safe_ok _
  unfold decodeField
  refine safely_ite (fun _ => safely_pure _) fun _ =>
    safely_ite (fun _ => safely_pure _) fun decoded =>
    safely_ite (fun _ => safely_lift (safe_invalidResidue _)) fun _ =>
    safely_ite (fun _ => safely_lift (safe_invalidResidue _)) fun _ => ?_
  exact safely_bind (safely_decodeFieldLen _ _ _) fun _ =>
    safely_bind (safely_decodeFieldValue decoded _ _ _) fun _ =>
    safely_bind (safely_lift (lengths _)) fun _ => safely_pure _

theorem safely_decodeFields (rule : Rule) (direction : Direction)
    (provider : Option ExternalValueProvider) : Safely (decodeFields rule direction provider) := by
  have each : ∀ fields state, Safely (decodeFieldList direction provider fields state) := by
    intro fields
    induction fields with
    | nil => exact fun state => safely_pure _
    | cons field fields ih =>
      exact fun state => safely_bind (safely_decodeField _ _ _ _) fun next => ih next
  exact safely_bind (each _ _) fun _ => safely_pure _

theorem safe_setPosition (r : BitReader) (position : Nat) : Safe (r.setPosition position) :=
  safe_ite (fun _ => safe_failed _) fun _ => safe_ok _

theorem safely_anyBitSet (bits : Nat) (nonzero : Bool) : Safely (anyBitSet bits nonzero) := by
  induction bits generalizing nonzero with
  | zero => exact safely_pure _
  | succ bits ih => exact safely_bind (BitReader.safe_readBits 1) fun _ => ih _

theorem safe_selectRule (compressed : List UInt8) (bitLen : Nat) (rules : List Rule) :
    Safe (selectRule compressed bitLen rules) := by
  induction rules with
  | nil => exact safe_failed _
  | cons rule rules ih =>
    have made : Safe (BitReader.withBitLen compressed bitLen) := by
      unfold BitReader.withBitLen
      split
      · exact safe_failed _
      · exact safe_ok _
    exact safe_bind made fun reader _ => safe_ite (fun _ => ih) fun _ =>
      safe_bind (BitReader.safe_readBits _ _) fun _ _ => safe_ite (fun _ => safe_ok _) fun _ => ih

/- The end of a datagram. -/

/-- Padding is valid only where there is none. -/
theorem validatePadding_ok {r r' : BitReader} (done : validatePadding r = .ok ((), r')) :
    r.remaining = 0 := by
  unfold validatePadding at done
  change ((if r.remaining ≥ 8 then _ else _ : BitReader.Read Unit) r) = _ at done
  split at done
  · simp [invalidResidue, fail, monadLift, MonadLift.monadLift, StateT.lift] at done
  · rw [bind_run, bind_eq_ok] at done
    obtain ⟨⟨nonzero, r''⟩, -, done⟩ := done
    split at done
    · cases done
    · split at done
      · cases done
      · rename_i none
        simpa using none

theorem safely_validatePadding : Safely validatePadding := by
  intro r
  unfold validatePadding
  change Safe ((if r.remaining ≥ 8 then _ else _ : BitReader.Read Unit) r)
  refine safely_ite (fun _ => safely_lift (safe_invalidResidue _)) (fun _ => ?_) r
  refine safely_bind (safely_anyBitSet _ _) fun _ => ?_
  exact safely_ite (fun _ => safely_lift (safe_invalidResidue _)) fun _ =>
    safely_ite (fun _ => safely_lift (safe_invalidResidue _)) fun _ => safely_pure _

/-- What follows the residue is a whole number of bytes. -/
theorem readSuffix_aligned {compressed : List UInt8} {fields : FieldStore} {r r' : BitReader}
    {suffix : Option (List UInt8)} (done : readSuffix compressed fields r = .ok (suffix, r')) :
    r.remaining % 8 = 0 := by
  unfold readSuffix at done
  change ((if r.remaining ≥ 8 then _ else _ : BitReader.Read (Option (List UInt8))) r) = _ at done
  split at done
  · split at done
    · cases done
    · split at done
      · cases done
      · rename_i aligned
        simpa using aligned
  · rw [bind_run, bind_eq_ok] at done
    obtain ⟨⟨_, r''⟩, padded, -⟩ := done
    rw [validatePadding_ok padded]

theorem safely_readSuffix (compressed : List UInt8) (fields : FieldStore) :
    Safely (readSuffix compressed fields) := by
  intro r
  unfold readSuffix
  change Safe ((if r.remaining ≥ 8 then _ else _ : BitReader.Read (Option (List UInt8))) r)
  refine safely_ite (fun _ => ?_)
    (fun _ => safely_bind safely_validatePadding fun _ => safely_pure _) r
  exact safely_ite (fun _ => safely_lift (safe_invalidResidue _)) fun _ =>
    safely_ite (fun _ => safely_lift (safe_invalidResidue _)) fun _ =>
      safely_bind (BitReader.safe_readBytesPadded _) fun _ => safely_pure _

/-- What a datagram holds behind its rule identifier. -/
inductive Frame where
  | whole (rule : Rule) (packet : List UInt8)
  | coded (rule : Rule) (fields : FieldStore) (suffix : Option (List UInt8))

/-- The bytes of a no-compression datagram, before their lengths are checked. -/
def readWhole (reader : BitReader) : Result (List UInt8) :=
  let remaining := reader.remaining
  if remaining % 8 ≠ 0 then do
    let tail ← reader.setPosition (reader.position + remaining - remaining % 8)
    let (nonzero, _) ← anyBitSet tail.remaining false tail
    let reason := if nonzero then "non-zero padding bit after no-compression packet"
      else "no-compression packet is not byte aligned"
    invalidResidue (reason ++ s!": {remaining} trailing bits remain")
  else do
    let (packet, _) ← BitReader.readBytesPadded remaining reader
    .ok packet

theorem decodeNoCompressionPayload_split (reader : BitReader) :
    decodeNoCompressionPayload reader = (readWhole reader >>= fun packet =>
      validatePacketLengths packet >>= fun _ => .ok packet) := by
  unfold decodeNoCompressionPayload readWhole
  by_cases ragged : reader.remaining % 8 ≠ 0
  · simp only [if_pos ragged]
    cases reader.setPosition (reader.position + reader.remaining - reader.remaining % 8) with
    | error halt => rfl
    | ok tail =>
      simp only [ok_bind]
      cases anyBitSet tail.remaining false tail <;> rfl
  · simp only [if_neg ragged]
    cases BitReader.readBytesPadded reader.remaining reader <;> rfl

theorem readWhole_aligned {reader : BitReader} {packet : List UInt8}
    (done : readWhole reader = .ok packet) : reader.remaining % 8 = 0 := by
  by_contra ragged
  simp only [readWhole, ne_eq, ragged, not_false_eq_true, ↓reduceIte, bind_eq_ok,
    invalidResidue_ne_ok, and_false, exists_false] at done

theorem safe_readWhole (reader : BitReader) : Safe (readWhole reader) :=
  safe_ite
    (fun _ => safe_bind (safe_setPosition _ _) fun _ _ =>
      safe_bind (safely_anyBitSet _ _ _) fun _ _ => safe_invalidResidue _)
    (fun _ => safe_bind (BitReader.safe_readBytesPadded _ _) fun _ _ => safe_ok _)

namespace Decompressor

def readBody (d : Decompressor) (position : Position) (compressed : List UInt8) (rule : Rule)
    (reader : BitReader) : Result Frame :=
  match rule.nature with
  | .compression | .management =>
      if rule.fields.isEmpty then (readWhole reader).map (Frame.whole rule)
      else do
        let (fields, reader) ← decodeFields rule (inverseDirection position) d.provider reader
        let (suffix, _) ← readSuffix compressed fields reader
        .ok (.coded rule fields suffix)
  | .noCompression => (readWhole reader).map (Frame.whole rule)
  | .fragmentation => fail (.unsupportedRuleNature rule.nature.asStr)

/-- Reads a datagram to its end, without judging or rebuilding the packet. -/
def readFrame (d : Decompressor) (position : Position) (compressed : List UInt8)
    (bitLen : Nat) : Result Frame := do
  let (rule, reader) ← selectRule compressed bitLen d.context.rules.rules
  d.readBody position compressed rule reader

end Decompressor

def Frame.finish (direction : Direction) : Frame → Result DecompressedDatagram
  | .whole rule packet => do
      validatePacketLengths packet
      .ok ⟨packet, rule.id⟩
  | .coded rule fields suffix => do
      let packet ← rebuild direction fields suffix
      .ok ⟨packet, rule.id⟩

/-- Finishing overflows the stack. -/
def Frame.overflows : Frame → Bool
  | .whole _ _ => false
  | .coded _ fields suffix => rebuildOverflows fields suffix

theorem Frame.finish_overflows {frame : Frame} (overflows : frame.overflows) (direction : Direction) :
    frame.finish direction = panicAt .stackOverflow := by
  cases frame with
  | whole => simp [Frame.overflows] at overflows
  | coded rule fields suffix =>
    cases suffix with
    | none =>
      simp only [Frame.finish, rebuild, reconstructPacket, outer_overflows overflows]
      rfl
    | some suffix =>
      simp only [Frame.finish, rebuild, reconstructPacketWithSuffix,
        joinSuffix_overflows overflows]
      rfl

theorem Frame.safe_finish {frame : Frame} (returns : frame.overflows = false)
    (direction : Direction) : Safe (frame.finish direction) := by
  cases frame with
  | whole => exact safe_bind (safe_validatePacketLengths _) fun _ _ => safe_ok _
  | coded rule fields suffix =>
    refine safe_bind ?_ fun _ _ => safe_ok _
    cases suffix with
    | none => exact safe_reconstructPacket returns direction
    | some suffix => exact safe_reconstructPacketWithSuffix (safe_joinSuffix returns direction)

namespace Decompressor
variable {d : Decompressor} {position : Position} {compressed : List UInt8}

theorem decompress_eq_finish (bitLen : Nat) :
    d.decompressWithBitLenDetailed position compressed bitLen =
      (d.readFrame position compressed bitLen >>= fun frame =>
        frame.finish (inverseDirection position)) := by
  unfold decompressWithBitLenDetailed readFrame
  cases selectRule compressed bitLen d.context.rules.rules with
  | error halt => rfl
  | ok selected =>
    obtain ⟨rule, reader⟩ := selected
    simp only [ok_bind, decodePacket, readBody, decodeNoCompressionPayload_split]
    have whole : (readWhole reader >>= fun packet => validatePacketLengths packet >>= fun _ =>
          Except.ok packet) >>= (fun packet => Except.ok (⟨packet, rule.id⟩ : DecompressedDatagram)) =
        ((readWhole reader).map (Frame.whole rule) >>= fun frame =>
          frame.finish (inverseDirection position)) := by
      cases readWhole reader with
      | error halt => rfl
      | ok packet =>
        simp only [ok_bind, Except.map, Frame.finish]
        cases validatePacketLengths packet <;> rfl
    have coded : (decodeCompressed rule (inverseDirection position) d.provider compressed reader >>=
          fun packet => Except.ok (⟨packet, rule.id⟩ : DecompressedDatagram)) =
        ((decodeFields rule (inverseDirection position) d.provider reader >>= fun read =>
          readSuffix compressed read.1 read.2 >>= fun rest =>
            (.ok (Frame.coded rule read.1 rest.1) : Result Frame)) >>= fun frame =>
          frame.finish (inverseDirection position)) := by
      unfold decodeCompressed
      cases decodeFields rule (inverseDirection position) d.provider reader with
      | error halt => rfl
      | ok read =>
        simp only [ok_bind]
        cases readSuffix compressed read.1 read.2 <;> rfl
    cases rule.nature with
    | compression =>
      simp only
      split
      · exact whole
      · exact coded
    | management =>
      simp only
      split
      · exact whole
      · exact coded
    | noCompression => exact whole
    | fragmentation => rfl

theorem safe_readFrame (bitLen : Nat) : Safe (d.readFrame position compressed bitLen) := by
  refine safe_bind (safe_selectRule _ _ _) fun selected _ => ?_
  obtain ⟨rule, reader⟩ := selected
  have coded : Safe (decodeFields rule (inverseDirection position) d.provider reader >>= fun read =>
      readSuffix compressed read.1 read.2 >>= fun rest =>
        (.ok (Frame.coded rule read.1 rest.1) : Result Frame)) :=
    safe_bind (safely_decodeFields _ _ _ _) fun _ _ =>
      safe_bind (safely_readSuffix _ _ _) fun _ _ => safe_ok _
  change Safe (d.readBody position compressed rule reader)
  unfold readBody
  split
  · exact safe_ite (fun _ => safe_map _ (safe_readWhole _)) fun _ => coded
  · exact safe_ite (fun _ => safe_map _ (safe_readWhole _)) fun _ => coded
  · exact safe_map _ (safe_readWhole _)
  · exact safe_failed _

/-- Where the reading of a datagram ended: `read` bits behind the identifier, a whole number
    of bytes before the end. -/
structure Ends (d : Decompressor) (position : Position) (compressed : List UInt8) (bitLen : Nat)
    (inside : bitLen ≤ compressed.length * 8) (rule : Rule) (read : Nat) : Prop where
  member : rule ∈ d.context.rules.rules
  starts : rule.id.bits <+: meaningfulBits compressed bitLen
  aligned : (bitLen - (rule.id.bitLen + read)) % 8 = 0
  reads : (rule.nature = .noCompression ∨ rule.fields = []) ∧ read = 0 ∨
    rule.fields ≠ [] ∧ rule.nature ≠ .noCompression ∧ ∃ fields,
      decodeFields rule (inverseDirection position) d.provider
        (readerAt compressed bitLen inside rule.id.bitLen) =
        .ok (fields, readerAt compressed bitLen inside (rule.id.bitLen + read))

theorem ends_of_readFrame {bitLen : Nat} (inside : bitLen ≤ compressed.length * 8)
    (fit : ∀ rule ∈ d.context.rules.rules, rule.id.Fits) {frame : Frame}
    (done : d.readFrame position compressed bitLen = .ok frame) :
    ∃ rule read, Ends d position compressed bitLen inside rule read := by
  simp only [readFrame, selectRule_eq fit inside] at done
  split at done
  · rename_i rule found
    have member := List.mem_of_find?_eq_some found
    have starts : rule.id.bits <+: meaningfulBits compressed bitLen := by
      simpa using List.find?_some found
    rw [ok_bind] at done
    have whole : ∀ packet, readWhole (readerAt compressed bitLen inside rule.id.bitLen) =
        .ok packet → rule.nature = .noCompression ∨ rule.fields = [] →
        Ends d position compressed bitLen inside rule 0 := by
      intro packet read plain
      exact ⟨member, starts, readWhole_aligned read, .inl ⟨plain, rfl⟩⟩
    have coded : rule.fields ≠ [] → rule.nature ≠ .noCompression →
        (decodeFields rule (inverseDirection position) d.provider
          (readerAt compressed bitLen inside rule.id.bitLen) >>= fun read =>
          readSuffix compressed read.1 read.2 >>= fun rest =>
            (.ok (Frame.coded rule read.1 rest.1) : Result Frame)) = .ok frame →
        ∃ read, Ends d position compressed bitLen inside rule read := by
      intro entries codes done
      simp only [bind_eq_ok] at done
      obtain ⟨⟨fields, rest⟩, decoded, ⟨suffix, last⟩, ended, -⟩ := done
      obtain ⟨bits, -, moved, -⟩ := streaming_decodeFields _ _ _ _ _ _ decoded
      change rest = (readerAt compressed bitLen inside rule.id.bitLen).skip bits.length at moved
      rw [skip_readerAt] at moved
      subst moved
      exact ⟨bits.length, member, starts, readSuffix_aligned ended,
        .inr ⟨entries, codes, fields, decoded⟩⟩
    have mapped : ∀ {x : Result (List UInt8)}, x.map (Frame.whole rule) = .ok frame →
        ∃ packet, x = .ok packet := by
      intro x done
      cases x with
      | error halt => cases done
      | ok packet => exact ⟨packet, rfl⟩
    change d.readBody position compressed rule _ = _ at done
    unfold readBody at done
    split at done
    · rename_i nature
      split at done
      · rename_i empty
        obtain ⟨packet, read⟩ := mapped done
        exact ⟨rule, 0, whole packet read (.inr (List.isEmpty_iff.mp empty))⟩
      · rename_i entries
        obtain ⟨read, ends⟩ := coded (by simpa using entries) (by rw [nature]; simp) done
        exact ⟨rule, read, ends⟩
    · rename_i nature
      split at done
      · rename_i empty
        obtain ⟨packet, read⟩ := mapped done
        exact ⟨rule, 0, whole packet read (.inr (List.isEmpty_iff.mp empty))⟩
      · rename_i entries
        obtain ⟨read, ends⟩ := coded (by simpa using entries) (by rw [nature]; simp) done
        exact ⟨rule, read, ends⟩
    · rename_i nature
      obtain ⟨packet, read⟩ := mapped done
      exact ⟨rule, 0, whole packet read (.inl nature)⟩
    · simp at done
  · cases done

/-- Two bit lengths within a byte of each other cannot both frame the same bytes. -/
theorem readFrame_unique (valid : d.context.Valid) {n m : Nat} (ordered : n ≤ m) (near : m < n + 8)
    (inside : m ≤ compressed.length * 8) {a b : Frame}
    (short : d.readFrame position compressed n = .ok a)
    (long : d.readFrame position compressed m = .ok b) : n = m := by
  have fit := fun rule member => (valid.rules rule member).id
  have inside' : n ≤ compressed.length * 8 := ordered.trans inside
  obtain ⟨rule, read, ends⟩ := ends_of_readFrame inside' fit short
  obtain ⟨rule', read', ends'⟩ := ends_of_readFrame inside fit long
  have longer : meaningfulBits compressed n <+: meaningfulBits compressed m := by
    simp only [meaningfulBits]
    exact List.take_prefix_take_left ordered
  obtain rfl := PrefixCode.word_unique_extend valid.prefixFree longer ends.member ends'.member
    ends.starts ends'.starts
  have rest : (readerAt compressed n inside' rule.id.bitLen).unread <+:
      (readerAt compressed m inside rule.id.bitLen).unread := by
    obtain ⟨tail, split⟩ := longer
    rw [unread_readerAt, unread_readerAt, ← split, List.drop_append_of_le_length]
    · exact List.prefix_append _ _
    · have := ends.starts.length_le
      rwa [rule.id.length_bits] at this
  have room := ends.starts.length_le
  rw [rule.id.length_bits, length_meaningfulBits inside'] at room
  have same : read = read' ∧ rule.id.bitLen + read ≤ n := by
    rcases ends.reads with ⟨plain, rfl⟩ | ⟨entries, codes, fields, decoded⟩
    · rcases ends'.reads with ⟨-, rfl⟩ | ⟨entries, codes, -⟩
      · exact ⟨rfl, room⟩
      · rcases plain with nature | empty
        · exact absurd nature codes
        · exact absurd empty entries
    · rcases ends'.reads with ⟨plain, -⟩ | ⟨-, -, fields', decoded'⟩
      · rcases plain with nature | empty
        · exact absurd nature codes
        · exact absurd empty entries
      · obtain ⟨k, bound, moved, again⟩ :=
          streaming_extend (streaming_decodeFields _ _ _) decoded rest
        rw [again] at decoded'
        change readerAt compressed n inside' (rule.id.bitLen + read) =
          readerAt compressed n inside' (rule.id.bitLen + k) at moved
        have moved' : (readerAt compressed m inside rule.id.bitLen).skip k =
            readerAt compressed m inside (rule.id.bitLen + read') :=
          (Prod.mk.inj (Except.ok.inj decoded')).2
        rw [skip_readerAt] at moved'
        have first := congrArg BitReader.position moved
        have second := congrArg BitReader.position moved'
        simp only [readerAt] at first second
        change k ≤ (readerAt compressed n inside' rule.id.bitLen).unread.length at bound
        rw [unread_readerAt, List.length_drop, length_meaningfulBits inside'] at bound
        omega
  have := ends.aligned
  have := ends'.aligned
  omega

end Decompressor
end SchcCore
