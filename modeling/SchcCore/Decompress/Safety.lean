import SchcCore.Decompress.Result
import SchcCore.Compress.Safety

/- What validation at load time spares the engines: under valid entries no branch for an
   ill-typed one is reached, the provider is asked for interface identifiers only, and every
   call returns but for the rebuild of nested ICMPv6 errors. -/
namespace SchcCore
open Outcome BitList FieldStore Stream

/-- Some call of the provider ends with this error. -/
def Provided (provider : Option ExternalValueProvider) (error : SchcError) : Prop :=
  ∃ ask field direction bitLen, provider = some ask ∧ ask field direction bitLen = .error error

/-- An error about an ill-typed entry may only be the provider's own. -/
abbrev Excused (provider : Option ExternalValueProvider) (error : SchcError) : Prop :=
  error.IllTyped → Provided provider error

variable {provider : Option ExternalValueProvider}

theorem excused_of_sound {α : Type} {x : Result α} (sound : Sound x) : Within (Excused provider) x :=
  sound.mono fun _ other ill => absurd (.illTyped ill) other

/- Reading. -/

theorem BitReader.keeps_readBits (bits : Nat) : Keeps (Excused provider) (readBits bits) := by
  intro r
  rw [readBits_run]
  exact within_ite (fun _ => within_fail nofun) fun _ =>
    within_ite (fun _ => within_fail nofun) fun _ => within_ok _

theorem BitReader.keeps_copyTo (writer : BitWriter) (bits : Nat) :
    Keeps (Excused provider) (copyTo writer bits) := by
  intro r
  by_cases short : bits > r.remaining
  · rw [copyTo_short writer short]
    exact within_fail nofun
  · obtain ⟨w, ran, -⟩ := copyTo_run bits writer r (by omega)
    rw [ran]
    exact within_ok _

theorem FieldValue.keeps_readFrom (bitLen : Nat) : Keeps (Excused provider) (readFrom bitLen) := by
  intro r
  by_cases short : bitLen > r.remaining
  · rw [readFrom_short short]
    exact within_fail nofun
  · rw [readFrom_run bitLen r (by omega)]
    exact within_ok _

theorem keeps_readVariableLengthPrefix : Keeps (Excused provider) readVariableLengthPrefix :=
  keeps_bind (BitReader.keeps_readBits _) fun _ => keeps_ite (fun _ => keeps_pure _) fun _ =>
    keeps_bind (BitReader.keeps_readBits _) fun _ => keeps_ite (fun _ => keeps_pure _) fun _ =>
      BitReader.keeps_readBits _

/- One entry. -/

theorem FieldRule.Valid.bytes {field : FieldRule} (valid : field.Valid)
    (stored : field.field ≠ .syntheticCoapMarker)
    (elided : field.action = .notSent ∨ field.action = .lsb) :
    ∃ bytes, field.target = .bytes bytes := by
  have own := valid.byteTarget elided stored
  cases target : field.target with
  | bytes bytes => exact ⟨bytes, rfl⟩
  | none => rw [target] at own; cases own
  | mapping values => rw [target] at own; cases own

theorem FieldRule.Valid.mapping {field : FieldRule} (valid : field.Valid)
    (sent : field.action = .mappingSent) : ∃ values, field.target = .mapping values := by
  have own := valid.mappingSent sent
  cases target : field.target with
  | mapping values => exact ⟨values, rfl⟩
  | none => rw [target] at own; cases own
  | bytes bytes => rw [target] at own; cases own

theorem FieldRule.Valid.msb {field : FieldRule} (valid : field.Valid)
    (sent : field.action = .lsb) : ∃ n, field.matching = .msb n := by
  have own := valid.lsb sent
  cases matching : field.matching with
  | msb n => exact ⟨n, rfl⟩
  | _ => rw [matching] at own; cases own

section Entry
variable {field : FieldRule} (valid : field.Valid) (stored : field.field ≠ .syntheticCoapMarker)
include valid stored

theorem sound_notSentTargetBitLen (elided : field.action = .notSent) :
    Sound (notSentTargetBitLen field) := by
  obtain ⟨bytes, target⟩ := valid.bytes stored (.inl elided)
  rw [notSentTargetBitLen, target]
  exact within_ok _

theorem keeps_decodeFieldLen (lengths : LengthResolver) (fields : FieldStore) :
    Keeps (Excused provider) (decodeFieldLen field lengths fields) := by
  unfold decodeFieldLen
  split
  · exact keeps_lift (excused_of_sound (sound_notSentTargetBitLen valid stored ‹_›))
  · exact keeps_lift (excused_of_sound (sound_notSentTargetBitLen valid stored ‹_›))
  · exact keeps_pure _
  · exact keeps_pure _
  · exact keeps_bind keeps_readVariableLengthPrefix fun _ => keeps_pure _
  · exact keeps_readVariableLengthPrefix
  · exact keeps_lift (excused_of_sound (LengthResolver.sound_resolve _ _ _))

theorem sound_notSentValue (elided : field.action = .notSent) (bitLen : Nat) :
    Sound (notSentValue field bitLen) := by
  obtain ⟨bytes, target⟩ := valid.bytes stored (.inl elided)
  rw [notSentValue, target]
  refine within_bind (sound_targetAsValue _ _) fun value found => ?_
  cases value with
  | some value => exact within_ok _
  | none => exact absurd found (targetAsValue_bytes_ne_none _ _)

theorem keeps_decodeLsb (elided : field.action = .lsb) (bitLen : Nat) :
    Keeps (Excused provider) (decodeLsb field bitLen) := by
  obtain ⟨bytes, target⟩ := valid.bytes stored (.inr elided)
  obtain ⟨n, matching⟩ := valid.msb elided
  have leading : Sound (lsbTarget field bitLen n) := by
    rw [lsbTarget, target]
    refine within_bind (sound_targetAsValue _ _) fun value found => ?_
    cases value with
    | some value => exact FieldValue.sound_writeRangeTo _ _ _ _
    | none => exact absurd found (targetAsValue_bytes_ne_none _ _)
  rw [decodeLsb, matching]
  exact keeps_ite (fun _ => keeps_lift (within_fail nofun)) fun _ =>
    keeps_bind (keeps_lift (excused_of_sound leading)) fun _ =>
      keeps_bind (BitReader.keeps_copyTo _ _) fun _ =>
        keeps_lift (excused_of_sound (FieldValue.sound_fromBytes _ _))

omit stored in
theorem keeps_decodeMappingSent (sent : field.action = .mappingSent) :
    Keeps (Excused provider) (decodeMappingSent field.target) := by
  obtain ⟨values, target⟩ := valid.mapping sent
  have entry : ∀ index, Sound (mappingValue values index) := by
    intro index
    unfold mappingValue
    split
    · exact sound_bytesAsValue _ _
    · change Sound (invalidResidue ("mapping index " ++ toString index ++ " is out of range"))
      rw [String.append_assoc]
      exact sound_front (by decide +kernel) (by decide +kernel)
  rw [target]
  exact keeps_ite (fun _ => keeps_lift (excused_of_sound (entry _))) fun _ =>
    keeps_bind (BitReader.keeps_readBits _) fun _ => keeps_lift (excused_of_sound (entry _))

omit valid stored in
theorem excused_externalValue (bitLen : Nat) (direction : Direction) :
    Within (Excused provider) (externalValue field bitLen direction provider) := by
  unfold externalValue
  split
  · exact excused_of_sound (sound_text (by decide +kernel))
  · rename_i ask
    split
    · rename_i error answer
      exact within_fail fun _ => ⟨ask, _, _, _, rfl, answer⟩
    · refine within_ite (fun _ => ?_) fun _ => excused_of_sound (sound_bytesAsValue _ _)
      rw [String.append_assoc]
      exact excused_of_sound (sound_front (by decide +kernel) (by decide +kernel))

theorem keeps_decodeFieldValue (decoded : field.action ≠ .compute) (bitLen : Nat)
    (direction : Direction) :
    Keeps (Excused provider) (decodeFieldValue field bitLen direction provider) := by
  unfold decodeFieldValue
  split
  · exact keeps_lift (excused_of_sound (sound_notSentValue valid stored ‹_› _))
  · exact FieldValue.keeps_readFrom _
  · exact keeps_decodeMappingSent valid ‹_›
  · exact keeps_decodeLsb valid stored ‹_› _
  · exact keeps_lift (excused_externalValue _ _)
  · exact keeps_lift (excused_externalValue _ _)
  · exact absurd ‹_› decoded

end Entry

theorem keeps_decodeField {field : FieldRule} (valid : field.Valid) (direction : Direction)
    (state : DecodeState) :
    Keeps (Excused provider) (decodeField field direction provider state) := by
  have lengths : ∀ value, Sound (decodedLengths state.lengths field.field value) := fun value =>
    within_ite (fun _ => within_bind (FieldValue.sound_toU64 _) fun _ _ => within_ok _)
      fun _ => within_ok _
  unfold decodeField
  refine keeps_ite (fun _ => keeps_pure _) fun stored => ?_
  refine keeps_ite (fun _ => keeps_pure _) fun decoded => ?_
  refine keeps_ite (fun _ => keeps_lift (excused_of_sound (sound_text (by decide +kernel))))
    fun _ => ?_
  refine keeps_ite (fun _ => keeps_lift (excused_of_sound ?_)) fun _ => ?_
  · change Sound (invalidResidue ("unsupported field position " ++ toString field.fieldPosition ++
      " for " ++ field.field.debug ++ " in " ++ (state.enter field.field).debug ++ " scope"))
    simp only [String.append_assoc]
    exact sound_front (by decide +kernel) (by decide +kernel)
  · exact keeps_bind (keeps_decodeFieldLen valid stored _ _) fun _ =>
      keeps_bind (keeps_decodeFieldValue valid stored decoded _ _) fun _ =>
      keeps_bind (keeps_lift (excused_of_sound (lengths _))) fun _ => keeps_pure _

theorem keeps_decodeFieldList {fields : List FieldRule} (valid : ∀ field ∈ fields, field.Valid)
    (direction : Direction) (state : DecodeState) :
    Keeps (Excused provider) (decodeFieldList direction provider fields state) := by
  induction fields generalizing state with
  | nil => exact keeps_pure _
  | cons field fields ih =>
    refine keeps_bind (keeps_decodeField (valid field List.mem_cons_self) _ _) fun next => ?_
    exact ih (fun field later => valid field (List.mem_cons_of_mem _ later)) next

/-- Decoding the entries of a valid rule ends in a store or with an error about something else
    than an ill-typed entry, unless that error is the provider's. -/
theorem keeps_decodeFields {rule : Rule} (valid : rule.Valid) (direction : Direction) :
    Keeps (Excused provider) (decodeFields rule direction provider) := by
  refine keeps_bind (keeps_decodeFieldList ?_ _ _) fun _ => keeps_pure _
  intro field active
  exact valid.fields field (List.mem_of_mem_filter active)

/- The provider. -/

/-- The two providers answer alike for the interface identifiers. -/
def AgreeOnIids (p q : ExternalValueProvider) : Prop :=
  ∀ field direction bitLen, field = .ipv6 (.known .ipv6DevIid) ∨ field = .ipv6 (.known .ipv6AppIid) →
    p field direction bitLen = q field direction bitLen

theorem decodeFieldValue_asks {field : FieldRule} (valid : field.Valid)
    {p q : ExternalValueProvider} (agree : AgreeOnIids p q) (bitLen : Nat) (direction : Direction) :
    decodeFieldValue field bitLen direction (some p) =
      decodeFieldValue field bitLen direction (some q) := by
  unfold decodeFieldValue
  split
  · rfl
  · rfl
  · rfl
  · rfl
  · have own := valid.deviceIid ‹_›
    rw [externalValue, externalValue, agree _ _ _ (.inl own)]
  · have own := valid.appIid ‹_›
    rw [externalValue, externalValue, agree _ _ _ (.inr own)]
  · rfl

theorem decodeFields_asks {rule : Rule} (valid : rule.Valid) {p q : ExternalValueProvider}
    (agree : AgreeOnIids p q) (direction : Direction) :
    decodeFields rule direction (some p) = decodeFields rule direction (some q) := by
  have each : ∀ fields : List FieldRule, (∀ field ∈ fields, field.Valid) → ∀ state,
      decodeFieldList direction (some p) fields state =
        decodeFieldList direction (some q) fields state := by
    intro fields
    induction fields with
    | nil => exact fun _ state => rfl
    | cons field fields ih =>
      intro valid state
      have later := ih fun field later => valid field (List.mem_cons_of_mem _ later)
      have here : ∀ scope, decodeEntry field direction (some p) scope state =
          decodeEntry field direction (some q) scope state := by
        intro scope
        simp only [decodeEntry, decodeFieldValue_asks (valid field List.mem_cons_self) agree]
      simp only [decodeFieldList, decodeField, here, later]
  have active : ∀ field ∈ rule.active direction, field.Valid :=
    fun field active => valid.fields field (List.mem_of_mem_filter active)
  rw [decodeFields, decodeFields, each _ active]

/- The two engines under a loaded context. -/

/-- Neither the verdict nor an error recorded on the way is about an ill-typed entry. -/
structure TypedCompression (c : Compressor) (direction : Direction) (packet : List UInt8) :
    Prop where
  verdict : WellTyped (c.compress direction packet)
  recorded : Compressor.Clean
    (c.traverse packet direction (c.tree.nodes.length + 1) 0 .initial ⟨[], [], []⟩).1

/-- Whatever stands in the residue, decoding returns or fails with an error about something else
    (so it never arrives at a compute entry), and it asks for interface identifiers only. -/
structure TypedDecoding (rule : Rule) (direction : Direction) : Prop where
  entries : ∀ provider, Keeps (Excused provider) (decodeFields rule direction provider)
  asked : ∀ p q, AgreeOnIids p q →
    decodeFields rule direction (some p) = decodeFields rule direction (some q)

/-- Under a loaded context neither engine arrives at a branch for ill-typed entries. -/
theorem ill_typed_branches_unreachable {ctx : RuleContext} (loaded : ctx.Loaded) {c : Compressor}
    (made : Compressor.new ctx = .ok c) :
    (∀ direction packet, TypedCompression c direction packet) ∧
      ∀ rule ∈ ctx.rules.rules, ∀ direction, TypedDecoding rule direction := by
  have valid := loaded.valid
  constructor
  · intro direction packet
    exact ⟨Compressor.wellTyped_compress valid made packet direction,
      (Compressor.run_finishes valid made packet direction).clean⟩
  · intro rule member direction
    exact ⟨fun provider => keeps_decodeFields (valid.rules rule member) direction,
      fun p q agree => decodeFields_asks (valid.rules rule member) agree direction⟩

theorem ill_typed_branches_unreachable_at_udp :
    ∃ c, Compressor.new udpContext = .ok c ∧ TypedCompression c .down emptyUdpPacket ∧
      TypedDecoding udpRule .down := by
  obtain ⟨c, made⟩ := Compressor.new_total udpContext
  obtain ⟨compresses, decodes⟩ := ill_typed_branches_unreachable udpContext_loaded made
  exact ⟨c, made, compresses .down emptyUdpPacket, decodes udpRule List.mem_cons_self .down⟩

/- Calls that return. -/

/-- Returns exactly when it does not nest calls without end, and stops at no other site. -/
structure ReturnsUnless {α : Type} (endless : Prop) (x : Result α) : Prop where
  returns : Safe x ↔ ¬ endless
  site : ∀ site, x = panicAt site → site = .stackOverflow

theorem returnsUnless_of_safe {α : Type} {endless : Prop} {x : Result α} (never : ¬ endless)
    (safe : Safe x) : ReturnsUnless endless x :=
  ⟨iff_of_true safe never, fun site panicked => absurd panicked (safe site)⟩

theorem returnsUnless_of_overflow {α : Type} {endless : Prop} {x : Result α} (ends : endless)
    (overflow : x = panicAt .stackOverflow) : ReturnsUnless endless x := by
  refine ⟨iff_of_false (fun safe => safe _ overflow) (not_not_intro ends), ?_⟩
  intro site panicked
  rw [overflow] at panicked
  cases panicked
  rfl

/-- Keeping a part of what is returned changes nothing about it. -/
theorem ReturnsUnless.projected {α β : Type} {endless : Prop} {x : Result α} (f : α → β)
    (ends : ReturnsUnless endless x) :
    ReturnsUnless endless (x >>= fun a => .ok (f a)) := by
  obtain ⟨returns, only⟩ := ends
  cases x with
  | ok a =>
    exact ⟨iff_of_true (safe_ok _) (returns.mp (safe_ok a)), fun _ panicked => nomatch panicked⟩
  | error halt =>
    cases halt with
    | fail e =>
      exact ⟨iff_of_true (safe_fail e) (returns.mp (safe_fail e)),
        fun _ panicked => nomatch panicked⟩
    | panic site =>
      refine ⟨iff_of_false (fun safe => safe site rfl) ?_, ?_⟩
      · intro never
        exact returns.mpr never site rfl
      · intro site' panicked
        cases panicked
        exact only site rfl

namespace Decompressor
variable {d : Decompressor} {position : Position} {compressed : List UInt8}

/-- The datagram, read at this length, describes an ICMPv6 error inside an ICMPv6 error. -/
def Nests (d : Decompressor) (position : Position) (compressed : List UInt8) (bitLen : Nat) : Prop :=
  ∃ frame, d.readFrame position compressed bitLen = .ok frame ∧ frame.overflows

theorem decompress_overflows {bitLen : Nat} (nests : d.Nests position compressed bitLen) :
    d.decompressWithBitLenDetailed position compressed bitLen = panicAt .stackOverflow := by
  obtain ⟨frame, read, overflows⟩ := nests
  rw [decompress_eq_finish, read, ok_bind, Frame.finish_overflows overflows]

theorem safe_of_not_nests {bitLen : Nat} (returns : ¬ d.Nests position compressed bitLen) :
    Safe (d.decompressWithBitLenDetailed position compressed bitLen) := by
  refine safe_decompress fun frame read => ?_
  by_contra overflows
  exact returns ⟨frame, read, by simpa using overflows⟩

theorem decompressWithBitLen_returns (bitLen : Nat) :
    ReturnsUnless (d.Nests position compressed bitLen)
      (d.decompressWithBitLenDetailed position compressed bitLen) := by
  by_cases nests : d.Nests position compressed bitLen
  · exact returnsUnless_of_overflow nests (decompress_overflows nests)
  · exact returnsUnless_of_safe nests (safe_of_not_nests nests)

/-- The loop over the paddings stops where one of its rounds does. -/
theorem tryPaddings_site {paddings : List Nat} {trials : PaddingTrials} {site : PanicSite}
    (panicked : d.tryPaddings position compressed paddings trials = panicAt site) :
    ∃ bitLen, d.decompressWithBitLenDetailed position compressed bitLen = panicAt site := by
  induction paddings generalizing trials with
  | nil => cases panicked
  | cons paddingBits paddings ih =>
    rw [tryPaddings] at panicked
    split at panicked
    · exact ih panicked
    · split at panicked
      · exact ih panicked
      · exact ih panicked
      · rename_i site' stopped
        cases panicked
        exact ⟨_, stopped⟩

theorem safe_selectTrial (trials : PaddingTrials) : Safe (selectTrial trials) := by
  refine safe_ite (fun _ => safe_failed _) fun _ => ?_
  refine safe_bind ?_ fun selected _ => ?_
  · unfold uniquePaddingBitLength
    split
    · exact safe_ok _
    · exact safe_failed _
    · exact safe_failed _
  · split
    · exact safe_ok _
    · exact safe_failed _

theorem decompressDetailed_returns :
    ReturnsUnless (∃ bitLen, Permissible compressed bitLen ∧ d.Nests position compressed bitLen)
      (d.decompressDetailed position compressed) := by
  by_cases nests : ∃ bitLen, Permissible compressed bitLen ∧ d.Nests position compressed bitLen
  · obtain ⟨bitLen, permissible, here⟩ := nests
    obtain ⟨site, panicked⟩ := tryPaddings_panics ⟨[], none⟩ ((tried_iff bitLen).mpr permissible)
      (decompress_overflows here)
    obtain ⟨bitLen', stopped⟩ := tryPaddings_site panicked
    obtain rfl := (decompressWithBitLen_returns bitLen').site site stopped
    refine returnsUnless_of_overflow ⟨bitLen, permissible, here⟩ ?_
    rw [decompressDetailed, panicked]
    rfl
  · obtain ⟨last, tried⟩ := tryPaddings_safe ⟨[], none⟩ fun bitLen tried =>
      safe_of_not_nests fun here => nests ⟨bitLen, (tried_iff bitLen).mp tried, here⟩
    refine returnsUnless_of_safe nests ?_
    rw [decompressDetailed, tried, ok_bind]
    exact safe_selectTrial last

end Decompressor

/-- Compression returns on every input. Decompression stops at no index, `unwrap`, `expect` or
    `unreachable!`; it returns exactly when the datagram does not describe an ICMPv6 error inside
    an ICMPv6 error. -/
theorem calls_return_iff {ctx : RuleContext} (loaded : ctx.Loaded) {c : Compressor}
    (made : Compressor.new ctx = .ok c) (provider : Option ExternalValueProvider) :
    (∀ direction packet, Safe (c.compress direction packet)) ∧
      ∀ position compressed,
        (∀ bitLen,
          ReturnsUnless (Decompressor.Nests ⟨ctx, provider⟩ position compressed bitLen)
            (Decompressor.decompressWithBitLenDetailed ⟨ctx, provider⟩ position compressed bitLen) ∧
          ReturnsUnless (Decompressor.Nests ⟨ctx, provider⟩ position compressed bitLen)
            (Decompressor.decompressWithBitLen ⟨ctx, provider⟩ position compressed bitLen)) ∧
        ReturnsUnless (∃ bitLen, Permissible compressed bitLen ∧
            Decompressor.Nests ⟨ctx, provider⟩ position compressed bitLen)
          (Decompressor.decompressDetailed ⟨ctx, provider⟩ position compressed) ∧
        ReturnsUnless (∃ bitLen, Permissible compressed bitLen ∧
            Decompressor.Nests ⟨ctx, provider⟩ position compressed bitLen)
          (Decompressor.decompress ⟨ctx, provider⟩ position compressed) := by
  constructor
  · intro direction packet
    exact (Compressor.wellTyped_compress loaded.valid made packet direction).safe
  · intro position compressed
    refine ⟨fun bitLen => ⟨Decompressor.decompressWithBitLen_returns bitLen, ?_⟩,
      Decompressor.decompressDetailed_returns, ?_⟩
    · exact (Decompressor.decompressWithBitLen_returns bitLen).projected _
    · exact Decompressor.decompressDetailed_returns.projected _

theorem calls_return_at_udp :
    ∃ c, Compressor.new udpContext = .ok c ∧ Safe (c.compress .down emptyUdpPacket) ∧
      Safe (Decompressor.decompressWithBitLen ⟨udpContext, none⟩ .device [2] 8) := by
  obtain ⟨c, made⟩ := Compressor.new_total udpContext
  obtain ⟨compresses, decompresses⟩ := calls_return_iff udpContext_loaded made none
  refine ⟨c, made, compresses .down emptyUdpPacket, ?_⟩
  refine ((decompresses .device [2]).1 8).2.returns.mpr ?_
  rintro ⟨frame, read, overflows⟩
  have flat : (match Decompressor.readFrame ⟨udpContext, none⟩ .device [2] 8 with
      | .ok frame => frame.overflows
      | .error _ => false) = false := by decide +kernel
  rw [read] at flat
  exact absurd overflows (by simpa using flat)

/-- The one-byte datagram of the nested rule does not return at its own length. -/
theorem nested_call_never_returns :
    nestedContext.Loaded ∧ ¬ ∀ position compressed bitLen,
      Safe (Decompressor.decompressWithBitLen ⟨nestedContext, none⟩ position compressed bitLen) := by
  have overflow : Decompressor.decompressWithBitLen ⟨nestedContext, none⟩ .core [1] 8 =
      panicAt .stackOverflow := by decide +kernel
  exact ⟨nestedContext_loaded, fun safe => safe .core [1] 8 _ overflow⟩

end SchcCore
