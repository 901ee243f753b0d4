import SchcCore.Compress.Matching
import SchcCore.Roundtrip.Residue

/- Fields that do not travel themselves: an entry that is not sent is restored from its target,
   and one that is sent as a table index from the table. The value restored has the length of
   its own bytes, while matching compared it at the length of the field. -/
namespace SchcCore
open Outcome BitList Stream

/-- `decode_field_len` and then `decode_field_value`. -/
def decodeValue (entry : FieldRule) (lengths : LengthResolver) (fields : FieldStore)
    (direction : Direction) (provider : Option ExternalValueProvider) :
    BitReader.Read FieldValue := do
  let bitLen ← decodeFieldLen entry lengths fields
  decodeFieldValue entry bitLen direction provider

/-- Some reader has these bits in front of it. -/
theorem exists_reader (bits : List Bool) : ∃ reader : BitReader, bits <+: reader.unread := by
  refine ⟨BitReader.new (FieldValue.ofBits bits).bytes, ?_⟩
  rw [BitReader.unread_new, FieldValue.ofBytes_bytes, FieldValue.bits_ofBits]
  exact List.prefix_append _ _

/-- A value that its bytes denote at its own length is the value of these bytes exactly when it
    has their length. -/
theorem eq_ofBytes_iff {field : FieldValue} {bytes : List UInt8}
    (read : bytesAsValue bytes field.bitLen = .ok field) :
    field = .ofBits (ofBytes bytes) ↔ field.bitLen = 8 * bytes.length := by
  constructor
  · intro same
    have length := congrArg FieldValue.bitLen same
    rwa [FieldValue.bitLen_ofBits, length_ofBytes] at length
  · intro length
    rw [length, Nat.mul_comm, bytesAsValue_whole] at read
    cases read
    rfl

/- A rule with two tables and a payload that is not sent. -/

def tablesFile : RuleFile :=
  ⟨[⟨1, 8, none,
    [⟨"fid-ipv6-version", some 4, none, 1, "bi", .array [.string "06"], "match-mapping",
        "mapping-sent"⟩,
      ⟨"fid-ipv6-nextheader", some 8, none, 1, "bi", .array [.string "11", .string "3a"],
        "match-mapping", "mapping-sent"⟩,
      ⟨"fid-payload", none, some (.ofVariable .bytes), 1, "bi", .string "01", "equal",
        "not-sent"⟩]⟩]⟩

def tablesRegistry : SidRegistry :=
  .ofItems [⟨2860, "fid-ipv6-version"⟩, ⟨2866, "fid-ipv6-nextheader"⟩, ⟨2800, "fid-payload"⟩,
    ⟨2880, "di-bidirectional"⟩, ⟨2900, "mo-equal"⟩, ⟨2902, "mo-match-mapping"⟩,
    ⟨2920, "cda-not-sent"⟩, ⟨2922, "cda-mapping-sent"⟩]

def versionTable : FieldRule :=
  ⟨.ipv6 (.known .ipv6Version), .fixedBits 4, 1, .bidirectional, .mapping [[6]], .matchMapping,
    .mappingSent, 0⟩

def nextHeaderTable : FieldRule :=
  ⟨.ipv6 (.known .ipv6NextHeader), .fixedBits 8, 1, .bidirectional, .mapping [[17], [58]],
    .matchMapping, .mappingSent, 1⟩

def knownPayload : FieldRule :=
  ⟨.payload, .variableBytes, 1, .bidirectional, .bytes [1], .equal, .notSent, 2⟩

def tablesContext : RuleContext :=
  ⟨⟨[⟨⟨1, 8⟩, [versionTable, nextHeaderTable, knownPayload], .compression⟩], tablesRegistry⟩⟩

theorem tablesContext_loaded : tablesContext.Loaded := by
  have rules : mapIndexed (loadJsonRule tablesRegistry) 0 tablesFile.rules =
      .ok tablesContext.rules.rules := by decide +kernel
  refine .json tablesFile tablesRegistry ?_
  rw [RuleContext.fromJson, rules]
  rfl

/-- An entry of a rule of the context. -/
def RuleContext.Has (ctx : RuleContext) (entry : FieldRule) : Prop :=
  ∃ rule ∈ ctx.rules.rules, entry ∈ rule.fields

theorem tablesContext_has {entry : FieldRule}
    (listed : entry ∈ [versionTable, nextHeaderTable, knownPayload]) :
    tablesContext.Has entry :=
  ⟨_, List.mem_singleton.mpr rfl, listed⟩

/- Entries that are not sent. -/

theorem reads_notSent {entry : FieldRule} {bytes : List UInt8} (action : entry.action = .notSent)
    (unsized : entry.length = .variableBytes ∨ entry.length = .variableBits)
    (target : entry.target = .bytes bytes) (lengths : LengthResolver) (fields : FieldStore)
    (direction : Direction) (provider : Option ExternalValueProvider) :
    Reads (decodeValue entry lengths fields direction provider) [] (.ofBits (ofBytes bytes)) := by
  have length : Reads (decodeFieldLen entry lengths fields) [] (bytes.length * 8) := by
    have known : notSentTargetBitLen entry = .ok (bytes.length * 8) := by
      rw [notSentTargetBitLen, target]
    rcases unsized with unsized | unsized
    · simpa only [decodeFieldLen, unsized, action] using reads_lift known
    · simpa only [decodeFieldLen, unsized, action] using reads_lift known
  refine reads_bind length ?_
  have value : notSentValue entry (bytes.length * 8) = .ok (.ofBits (ofBytes bytes)) := by
    rw [notSentValue, target, targetAsValue, bytesAsValue_whole, ok_bind, ok_bind]
  simpa only [decodeFieldValue, action] using reads_lift value

/-- A variable-length field elided with equal and not-sent is restored without reading a bit
    exactly when it is as long as the target. -/
theorem not_sent_restores_iff {entry : FieldRule} {field : FieldValue} {own : MatchResult}
    (unsized : entry.length = .variableBytes ∨ entry.length = .variableBits)
    (operator : entry.matching = .equal) (action : entry.action = .notSent)
    (accepted : matchesBranch field entry.branch = .ok (some own)) (lengths : LengthResolver)
    (fields : FieldStore) (direction : Direction) (provider : Option ExternalValueProvider) :
    (∀ reader, decodeValue entry lengths fields direction provider reader = .ok (field, reader)) ↔
      ∀ bytes, entry.target = .bytes bytes → field.bitLen = 8 * bytes.length := by
  obtain ⟨bytes, target, read⟩ :=
    targetAsValue_some (matchesBranch_equal entry.branch operator accepted)
  have target : entry.target = .bytes bytes := target
  have restored := reads_notSent action unsized target lengths fields direction provider
  have run : ∀ reader : BitReader, decodeValue entry lengths fields direction provider reader =
      .ok (.ofBits (ofBytes bytes), reader) := by
    intro reader
    rw [restored reader List.nil_prefix, List.length_nil, Cursor.advance_zero]
  have length : (∀ other, entry.target = .bytes other → field.bitLen = 8 * other.length) ↔
      field.bitLen = 8 * bytes.length := by
    simp only [target, TargetValue.bytes.injEq, forall_eq']
  rw [length, ← eq_ofBytes_iff read]
  constructor
  · intro every
    have same := every (BitReader.new [])
    rw [run] at same
    cases same
    rfl
  · intro same reader
    rw [run, ← same]

theorem not_sent_restores_at_known_payload :
    decodeValue knownPayload .new [] .up none (BitReader.new [2]) =
      .ok (.ofBits (ofBytes [1]), BitReader.new [2]) := by
  have accepted : matchesBranch (.ofBits (ofBytes [1])) knownPayload.branch =
      .ok (some ⟨none, none, none⟩) := by decide +kernel
  refine (not_sent_restores_iff (.inl rfl) rfl rfl accepted .new [] .up none).mpr ?_ _
  intro bytes same
  cases same
  rfl

/-- A payload of two bytes that is the number 1 matches and comes back as one byte. -/
theorem padded_payload_is_shortened :
    tablesContext.Loaded ∧ tablesContext.Has knownPayload ∧
      ¬ ∀ (field : FieldValue) own, field.bitLen % 8 = 0 →
        matchesBranch field knownPayload.branch = .ok (some own) →
        ∀ reader, decodeValue knownPayload .new [] .up none reader = .ok (field, reader) := by
  refine ⟨tablesContext_loaded, tablesContext_has (by simp), fun every => ?_⟩
  have accepted : matchesBranch (.ofBits (ofBytes [0, 1])) knownPayload.branch =
      .ok (some ⟨none, none, none⟩) := by decide +kernel
  have same := every _ _ rfl accepted (BitReader.new [])
  have reads : Reads (decodeValue knownPayload .new [] .up none) [] (.ofBits (ofBytes [1])) :=
    reads_notSent rfl (.inl rfl) rfl .new [] .up none
  have restored := reads (BitReader.new []) List.nil_prefix
  rw [same] at restored
  have differ : FieldValue.ofBits (ofBytes [0, 1]) ≠ .ofBits (ofBytes [1]) := by decide +kernel
  injection restored with pair
  exact differ (congrArg Prod.fst pair)

/- Entries that are sent as an index into a table. -/

theorem mappingIndexBits_eq_zero {n : Nat} (none : mappingIndexBits n = 0) : n ≤ 1 := by
  by_contra many
  rw [mappingIndexBits, if_neg many] at none
  obtain ⟨k, last⟩ : ∃ k, n - 1 = k + 1 := ⟨n - 2, by omega⟩
  rw [last, countBits, if_pos (Nat.succ_pos k)] at none
  omega

theorem lt_two_pow_countBits {rounds m : Nat} (small : m < 2 ^ rounds) :
    m < 2 ^ countBits rounds m := by
  induction rounds generalizing m with
  | zero => exact small
  | succ rounds ih =>
    rw [countBits]
    by_cases some : m > 0
    · rw [if_pos some]
      have half : m >>> 1 < 2 ^ rounds := by
        rw [Nat.shiftRight_eq_div_pow]
        omega
      have rest := ih half
      rw [Nat.shiftRight_eq_div_pow] at rest ⊢
      rw [Nat.add_comm, Nat.pow_succ]
      omega
    · rw [if_neg some]
      omega

theorem lt_two_pow_mappingIndexBits {index n : Nat} (inside : index < n) :
    index < 2 ^ mappingIndexBits n := by
  rw [mappingIndexBits]
  by_cases few : n ≤ 1
  · rw [if_pos few]
    omega
  · rw [if_neg few]
    have largest := lt_two_pow_countBits (Nat.lt_two_pow_self (n := n - 1))
    omega

theorem reads_mappingIndex {values : List (List UInt8)} {index : Nat} {bytes : List UInt8}
    {writer w : BitWriter} (placed : values[index]? = some bytes)
    (wrote : (if mappingIndexBits values.length = 0 then .ok writer
      else writer.writeBits index (mappingIndexBits values.length)) = .ok w) :
    w.bits = writer.bits ++ ofNat (mappingIndexBits values.length) index ∧
      Reads (decodeMappingSent (.mapping values)) (ofNat (mappingIndexBits values.length) index)
        (.ofBits (ofBytes bytes)) := by
  have entry : mappingValue values index = .ok (.ofBits (ofBytes bytes)) := by
    rw [mappingValue, placed]
    exact bytesAsValue_whole bytes
  by_cases none : mappingIndexBits values.length = 0
  · have few := mappingIndexBits_eq_zero none
    have inside := (List.getElem?_eq_some_iff.mp placed).1
    obtain rfl : index = 0 := by omega
    rw [if_pos none] at wrote
    cases wrote
    have bits : ofNat (mappingIndexBits values.length) 0 = [] := by
      rw [none]
      rfl
    rw [bits, decodeMappingSent, if_pos none]
    exact ⟨(List.append_nil _).symm, reads_lift entry⟩
  · rw [if_neg none] at wrote
    refine ⟨BitWriter.writeBits_bits wrote, ?_⟩
    obtain ⟨positive, narrow⟩ := BitWriter.writeBits_width wrote
    have fits := lt_two_pow_mappingIndexBits (List.getElem?_eq_some_iff.mp placed).1
    rw [decodeMappingSent, if_neg none, ← List.append_nil (ofNat _ index)]
    exact reads_bind (reads_readBits_ofNat positive narrow fits) (reads_lift entry)

theorem decodeFieldLen_mappingSent {entry : FieldRule} (lengths : LengthResolver)
    (fields : FieldStore) (action : entry.action = .mappingSent) :
    ((entry.length = .variableBytes ∨ entry.length = .variableBits) ∧
        decodeFieldLen entry lengths fields = pure 0) ∨
      ((entry.length ≠ .variableBytes ∧ entry.length ≠ .variableBits) ∧
        decodeFieldLen entry lengths fields = monadLift (lengths.resolve entry.length fields)) := by
  cases length : entry.length <;> simp [decodeFieldLen, length, action]

/-- The index that a reader has in front of it. -/
def receivedIndex (values : List (List UInt8)) (reader : BitReader) : Nat :=
  toNat (reader.unread.take (mappingIndexBits values.length))

/-- An index past the end of the table is refused. -/
theorem decodeMappingSent_outside {values : List (List UInt8)} {reader : BitReader}
    (outside : values.length ≤ receivedIndex values reader) :
    ∃ error, decodeMappingSent (.mapping values) reader = .error (.fail error) := by
  rw [decodeMappingSent]
  by_cases none : mappingIndexBits values.length = 0
  · rw [receivedIndex, none, List.take_zero] at outside
    obtain rfl : values = [] := List.length_eq_zero_iff.mp (Nat.le_zero.mp outside)
    exact ⟨_, rfl⟩
  · rw [if_neg none, bind_run, BitReader.readBits_run]
    split
    · exact ⟨_, rfl⟩
    · split
      · exact ⟨_, rfl⟩
      · have missing : values[receivedIndex values reader]? = Option.none :=
          List.getElem?_eq_none outside
        refine ⟨.invalidResidue s!"mapping index {receivedIndex values reader} is out of range", ?_⟩
        rw [ok_bind]
        change (monadLift (mappingValue values (receivedIndex values reader)) :
          BitReader.Read FieldValue) _ = _
        rw [mappingValue, missing]
        rfl

/-- The table codec of an entry: what was emitted for a matched field reads back as that field,
    and an index past the end of the table is refused. -/
structure RestoresMatched (field : FieldValue) (values : List (List UInt8))
    (before after : BitWriter) (decode : BitReader.Read FieldValue) : Prop where
  restored : ∃ sent, after.bits = before.bits ++ sent ∧ Reads decode sent field
  rejected : ∀ reader, values.length ≤ receivedIndex values reader →
    ∃ error, decode reader = .error (.fail error)

/-- The first entry of the table that denotes the field. -/
theorem matchesBranch_mapping {field : FieldValue} {entry : FieldRule} {own : MatchResult}
    {values : List (List UInt8)} (operator : entry.matching = .matchMapping)
    (target : entry.target = .mapping values)
    (accepted : matchesBranch field entry.branch = .ok (some own)) :
    ∃ (i : Nat) (bytes : List UInt8), values[i]? = some bytes ∧ denotes field bytes ∧
      own = ⟨some i, none, none⟩ ∧
      ∀ (j : Nat) other, j < i → values[j]? = some other → ¬ denotes field other := by
  have operator : entry.branch.matching = .matchMapping := operator
  have target : entry.branch.target = .mapping values := target
  simp only [matchesBranch, operator, target, bind_eq_ok] at accepted
  obtain ⟨selected, found, made⟩ := accepted
  cases selected with
  | none => simp at made
  | some index =>
    cases made
    rw [selectMapping_eq_scan] at found
    obtain ⟨i, bytes, placed, verdict, first⟩ := scan_some found
    obtain ⟨hit, rfl⟩ := judgeEntry_eq_some.mp verdict
    rw [Nat.zero_add]
    refine ⟨i, bytes, placed, hit, rfl, fun j other below there hit => ?_⟩
    exact first j other _ below there (judgeEntry_eq_some.mpr ⟨hit, rfl⟩)

/-- A mapping-sent entry restores the field it matched exactly when the first table entry that
    denotes the field has the field's length. -/
theorem mapping_sent_restores_iff {entry : FieldRule} {field : FieldValue} {own : MatchResult}
    {values : List (List UInt8)} {writer w : BitWriter} {lengths : LengthResolver}
    {fields : FieldStore} (action : entry.action = .mappingSent)
    (operator : entry.matching = .matchMapping) (target : entry.target = .mapping values)
    (resolved : entry.length ≠ .variableBytes → entry.length ≠ .variableBits →
      lengths.resolve entry.length fields = .ok field.bitLen)
    (accepted : matchesBranch field entry.branch = .ok (some own))
    (wrote : writeResidue writer field entry.branch own = .ok w) (direction : Direction)
    (provider : Option ExternalValueProvider) :
    RestoresMatched field values writer w
        (decodeValue entry lengths fields direction provider) ↔
      ∀ (i : Nat) bytes, values[i]? = some bytes → denotes field bytes →
        (∀ (j : Nat) other, j < i → values[j]? = some other → ¬ denotes field other) →
        field.bitLen = 8 * bytes.length := by
  obtain ⟨i, bytes, placed, hit, rfl, first⟩ := matchesBranch_mapping operator target accepted
  have emitted : (if mappingIndexBits values.length = 0 then .ok writer
      else writer.writeBits i (mappingIndexBits values.length)) = .ok w := by
    have action : entry.branch.action = .mappingSent := action
    have target : entry.branch.target = .mapping values := target
    simpa only [writeResidue, action, target] using wrote
  obtain ⟨bits, table⟩ := reads_mappingIndex placed emitted
  -- The length is resolved and then not used.
  have decodes : ∃ n, Reads (decodeFieldLen entry lengths fields) [] n := by
    rcases decodeFieldLen_mappingSent lengths fields action with
      ⟨-, same⟩ | ⟨⟨notBytes, notBits⟩, same⟩
    · rw [same]
      exact ⟨0, reads_pure 0⟩
    · rw [same]
      exact ⟨field.bitLen, reads_lift (resolved notBytes notBits)⟩
  obtain ⟨n, length⟩ := decodes
  have value : decodeFieldValue entry n direction provider = decodeMappingSent (.mapping values) := by
    simp only [decodeFieldValue, action, target]
  have decoded : Reads (decodeValue entry lengths fields direction provider)
      (ofNat (mappingIndexBits values.length) i) (.ofBits (ofBytes bytes)) := by
    rw [← List.nil_append (ofNat _ i)]
    refine reads_bind length ?_
    rw [value]
    exact table
  have read : bytesAsValue bytes field.bitLen = .ok field := by
    rw [denotes, decide_eq_true_eq] at hit
    exact hit
  constructor
  · rintro ⟨⟨sent, after, restored⟩, -⟩ k other placed' hit' first'
    have same : k = i := by
      by_contra differ
      rcases Nat.lt_or_gt_of_ne differ with below | above
      · exact first k other below placed' hit'
      · exact first' i bytes above placed hit
    subst same
    rw [placed] at placed'
    cases placed'
    rw [bits, List.append_cancel_left_eq] at after
    subst after
    obtain ⟨reader, here⟩ := exists_reader (ofNat (mappingIndexBits values.length) k)
    exact (eq_ofBytes_iff read).mp (reads_unique here restored decoded)
  · intro lengths'
    have same := (eq_ofBytes_iff read).mpr (lengths' i bytes placed hit first)
    rw [← same] at decoded
    refine ⟨⟨_, bits, decoded⟩, fun reader outside => ?_⟩
    obtain ⟨error, refused⟩ := decodeMappingSent_outside outside
    refine ⟨error, ?_⟩
    have run : decodeValue entry lengths fields direction provider reader =
        decodeFieldValue entry n direction provider reader := by
      rw [decodeValue, bind_run, length reader List.nil_prefix, ok_bind, List.length_nil,
        Cursor.advance_zero]
    rw [run, value, refused]

theorem mapping_sent_restores_at_next_header :
    RestoresMatched (.ofBits (ofBytes [58])) [[17], [58]] BitWriter.new
      (BitWriter.new.writeShifts 1 1) (decodeValue nextHeaderTable .new [] .up none) := by
  have accepted : matchesBranch (.ofBits (ofBytes [58])) nextHeaderTable.branch =
      .ok (some ⟨some 1, none, none⟩) := by decide +kernel
  have wrote : writeResidue BitWriter.new (.ofBits (ofBytes [58])) nextHeaderTable.branch
      ⟨some 1, none, none⟩ = .ok (BitWriter.new.writeShifts 1 1) := by decide +kernel
  refine (mapping_sent_restores_iff rfl rfl rfl (fun _ _ => rfl) accepted wrote .up none).mpr ?_
  intro i bytes placed _ _
  have member := List.mem_of_getElem? placed
  simp only [List.mem_cons, List.not_mem_nil, or_false] at member
  rcases member with rfl | rfl <;> rfl

/-- The version 6 in four bits is selected from the table and comes back in eight. -/
theorem short_field_is_widened :
    tablesContext.Loaded ∧ tablesContext.Has versionTable ∧
      ¬ ∀ (field : FieldValue) own w,
        LengthResolver.new.resolve versionTable.length [] = .ok field.bitLen →
        matchesBranch field versionTable.branch = .ok (some own) →
        writeResidue BitWriter.new field versionTable.branch own = .ok w →
        RestoresMatched field [[6]] BitWriter.new w
          (decodeValue versionTable .new [] .up none) := by
  refine ⟨tablesContext_loaded, tablesContext_has (by simp), fun every => ?_⟩
  have accepted : matchesBranch (.ofBits (ofNat 4 6)) versionTable.branch =
      .ok (some ⟨some 0, none, none⟩) := by decide +kernel
  obtain ⟨sent, after, restored⟩ := (every (.ofBits (ofNat 4 6)) ⟨some 0, none, none⟩
    BitWriter.new rfl accepted rfl).restored
  have none : sent = [] := List.append_cancel_left (after.symm.trans (List.append_nil _).symm)
  subst none
  have here := restored (BitReader.new []) List.nil_prefix
  have widened : ((decodeValue versionTable .new [] .up .none (BitReader.new [])).toOption.map
      fun pair => pair.1.bitLen) = some 8 := by decide +kernel
  rw [here] at widened
  simp [Except.toOption] at widened

end SchcCore
