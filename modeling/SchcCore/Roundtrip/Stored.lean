import SchcCore.Compress.Matching
import SchcCore.Compress.Safety
import SchcCore.Roundtrip.Extraction

/- What a run leaves in its store: values that extraction reads from the packet, and CoAP options
   together with their places in the message. -/
namespace SchcCore
open Outcome Bytes BigEndian BitList FieldStore

/-- Extraction reads the value for the field in the scope. -/
def ReadsFrom (p : Ipv6Packet) (direction : Direction) (field : FieldRef) (scope : PacketScope)
    (value : FieldValue) : Prop :=
  ∃ parse bitLen coapPresent state, parse.field = field ∧
    extractField p.bytes direction parse bitLen scope coapPresent state = .ok value

/-- The stored value is that of the option at a place of the message. -/
structure PlacedAt (p : Ipv6Packet) (stored : FieldKey × FieldValue) (ordinal : Nat)
    (coap : CoapMessage) (option : CoapOption) : Prop where
  message : outerCoap p.bytes = .ok coap
  there : coap.options[ordinal]? = some option
  field : stored.1.field = .coapOption option.number.toNat
  scope : stored.1.scope = .outer
  value : stored.2 = option.field

/-- The invariant of a run. -/
structure Gathered (p : Ipv6Packet) (direction : Direction) (state : CompressionState) : Prop where
  read : ∀ stored ∈ state.fields, stored.1.field.isCoapOption = false →
    ReadsFrom p direction stored.1.field stored.1.scope stored.2
  options : List.Forall₂ (fun stored ordinal => ∃ coap option, PlacedAt p stored ordinal coap option)
    (state.fields.filter (fun stored => stored.1.field.isCoapOption)) state.coapOptionOrdinals

theorem Gathered.initial (p : Ipv6Packet) (direction : Direction) :
    Gathered p direction .initial := by
  constructor
  · intro stored member
    cases member
  · exact .nil

/- Options. -/

theorem selectCoapOption_ok {coap : CoapMessage} {number occurrence ordinal : Nat}
    {option : CoapOption}
    (selected : selectCoapOption coap number occurrence = .ok (ordinal, option)) :
    coap.options[ordinal]? = some option ∧ option.number.toNat = number := by
  unfold selectCoapOption at selected
  dsimp only at selected
  split at selected
  · rename_i own place found
    cases selected
    have member := List.mem_of_getElem? found
    rw [List.mem_filter, List.mem_zipIdx_iff_getElem?] at member
    exact ⟨member.1, of_decide_eq_true member.2⟩
  · split at selected
    · rename_i own place found
      split at selected
      · rename_i numbered
        cases selected
        have member := List.mem_of_getElem? found
        rw [List.mem_zipIdx_iff_getElem?] at member
        exact ⟨member, numbered⟩
      · cases selected
    · cases selected

theorem value_of_option {option : CoapOption} {value : FieldValue}
    (made : FieldValue.fromBytes option.value (option.value.length * 8) = .ok value) :
    value = option.field := by
  have whole := FieldValue.fromBytes_whole option.value
  rw [Nat.mul_comm, made] at whole
  exact Except.ok.inj whole

theorem ordinal_of_matchesBranch {value : FieldValue} {branch : Branch} {matched : MatchResult}
    (found : matchesBranch value branch = .ok (some matched)) : matched.coapOptionOrdinal = none := by
  unfold matchesBranch at found
  split at found
  · rw [bind_eq_ok] at found
    obtain ⟨target, -, found⟩ := found
    split at found <;> cases found
    rfl
  · cases found
    rfl
  · split at found
    · cases found
    · rw [bind_eq_ok] at found
      obtain ⟨target, -, found⟩ := found
      split at found
      · cases found
      · rw [bind_eq_ok] at found
        obtain ⟨same, -, found⟩ := found
        cases same <;> cases found
        rfl
  · split at found
    · rw [bind_eq_ok] at found
      obtain ⟨index, -, found⟩ := found
      cases index <;> cases found
      rfl
    · cases found

section
variable {p : Ipv6Packet} {direction : Direction} {branch : Branch} {bitLen : Option Nat}
  {scope : PacketScope} {state : CompressionState} {value : FieldValue} {matched : MatchResult}

/-- A searched option is stored with its ordinal. -/
theorem placedAt_of_search {number : Nat} (field : branch.parse.field = .coapOption number)
    (entry : extractMatchingCoapOption p.bytes branch.parse bitLen scope branch =
      .ok (some (value, matched))) (position index : Nat) :
    ∃ place coap option, matched.coapOptionOrdinal = some place ∧
      PlacedAt p (⟨branch.parse.field, position, index, scope⟩, value) place coap option := by
  rw [extractMatchingCoapOption] at entry
  by_cases embedded : scope = .embedded
  · rw [if_pos embedded] at entry
    cases entry
  · rw [if_neg embedded, field] at entry
    rw [bind_eq_ok] at entry
    obtain ⟨coap, message, entry⟩ := entry
    rw [searchCoapOption_eq_scan] at entry
    obtain ⟨i, option, there, judged, -⟩ := scan_some entry
    obtain ⟨own, satisfies, same⟩ := judgeOption_eq_some.mp judged
    cases same
    have outer : scope = .outer := by
      cases scope with
      | outer => rfl
      | embedded => exact absurd rfl embedded
    refine ⟨0 + i, coap, option, rfl, message, by rwa [Nat.zero_add], ?_, outer, rfl⟩
    rw [satisfies.asked.number]
    exact field

/-- An option at a position is stored with the ordinal that is looked up for it. -/
theorem placedAt_of_position {number : Nat} {parse : ParseStep}
    (field : parse.field = .coapOption number) {coapPresent : Bool}
    (extracted : extractField p.bytes direction parse bitLen scope coapPresent state = .ok value)
    (index : Nat) :
    ∃ place coap option, extractCoapOptionOrdinal p.bytes parse scope = .ok place ∧
      PlacedAt p (⟨parse.field, parse.fieldPosition, index, scope⟩, value) place coap option := by
  rw [extractField, bind_eq_ok] at extracted
  obtain ⟨source, located, extracted⟩ := extracted
  simp only [field] at extracted
  by_cases embedded : scope = .embedded
  · rw [if_pos embedded] at extracted
    cases extracted
  · have outer : scope = .outer := by
      cases scope with
      | outer => rfl
      | embedded => exact absurd rfl embedded
    subst outer
    rw [packetForScope_outer] at located
    cases located
    rw [if_neg embedded, bind_eq_ok] at extracted
    obtain ⟨coap, message, extracted⟩ := extracted
    by_cases unplaced : parse.fieldPosition = 0
    · rw [if_pos unplaced] at extracted
      cases extracted
    · rw [if_neg unplaced, bind_eq_ok] at extracted
      obtain ⟨⟨place, option⟩, selected, made⟩ := extracted
      obtain ⟨there, numbered⟩ := selectCoapOption_ok selected
      refine ⟨place, coap, option, ?_, message, there, ?_, rfl, value_of_option made⟩
      · rw [extractCoapOptionOrdinal, if_neg embedded]
        simp only [field, if_neg unplaced, message, selected, ok_bind]
      · rw [field, numbered]

/-- An option entry that is taken stores the option at the ordinal it records. -/
theorem placedAt_of_entry {ordinal : Option Nat} (isOption : branch.parse.field.isCoapOption)
    (entry : matchEntry p.bytes direction branch bitLen scope state = .ok (some (value, matched)))
    (numbered : optionOrdinal p.bytes branch.parse scope matched = .ok ordinal) (index : Nat) :
    ∃ place coap option, ordinal = some place ∧
      PlacedAt p (⟨branch.parse.field, branch.parse.fieldPosition, index, scope⟩, value) place coap
        option := by
  obtain ⟨number, field⟩ : ∃ number, branch.parse.field = .coapOption number := by
    cases field : branch.parse.field with
    | coapOption number => exact ⟨number, rfl⟩
    | _ => simp [FieldRef.isCoapOption, field] at isOption
  rw [matchEntry] at entry
  by_cases first : branch.parse.fieldPosition = 0
  · rw [if_pos ⟨isOption, first⟩] at entry
    obtain ⟨place, coap, option, recorded, placed⟩ :=
      placedAt_of_search field entry branch.parse.fieldPosition index
    refine ⟨place, coap, option, ?_, placed⟩
    rw [optionOrdinal, recorded, if_neg (fun unknown => Option.some_ne_none _ unknown.2)] at numbered
    exact (Except.ok.inj numbered).symm
  · rw [if_neg (fun both => first both.2)] at entry
    dsimp only at entry
    rw [bind_eq_ok] at entry
    obtain ⟨own, extracted, entry⟩ := entry
    by_cases unexpected : bitLen.any (fun expected => own.bitLen ≠ expected)
    · rw [if_pos unexpected] at entry
      cases entry
    · rw [if_neg unexpected, bind_eq_ok] at entry
      obtain ⟨verdict, judged, entry⟩ := entry
      cases verdict with
      | none => cases entry
      | some verdict =>
        cases entry
        obtain ⟨place, coap, option, looked, placed⟩ :=
          placedAt_of_position field extracted index
        refine ⟨place, coap, option, ?_, placed⟩
        rw [optionOrdinal, if_pos ⟨isOption, ordinal_of_matchesBranch judged⟩, looked, ok_bind]
          at numbered
        exact (Except.ok.inj numbered).symm

/-- An entry of another field that is taken stores what extraction reads. -/
theorem readsFrom_of_entry (plain : branch.parse.field.isCoapOption = false)
    (entry : matchEntry p.bytes direction branch bitLen scope state = .ok (some (value, matched))) :
    ReadsFrom p direction branch.parse.field scope value := by
  rw [matchEntry, if_neg (fun both => by simp [plain] at both)] at entry
  dsimp only at entry
  rw [bind_eq_ok] at entry
  obtain ⟨own, extracted, entry⟩ := entry
  by_cases unexpected : bitLen.any (fun expected => own.bitLen ≠ expected)
  · rw [if_pos unexpected] at entry
    cases entry
  · rw [if_neg unexpected, bind_eq_ok] at entry
    obtain ⟨verdict, -, entry⟩ := entry
    cases verdict with
    | none => cases entry
    | some verdict =>
      cases entry
      exact ⟨_, _, _, _, rfl, extracted⟩

theorem optionOrdinal_plain {parse : ParseStep} {ordinal : Option Nat}
    (plain : parse.field.isCoapOption = false) (unnumbered : matched.coapOptionOrdinal = none)
    (numbered : optionOrdinal p.bytes parse scope matched = .ok ordinal) : ordinal = none := by
  rw [optionOrdinal, if_neg (fun both => by simp [plain] at both), unnumbered] at numbered
  exact (Except.ok.inj numbered).symm

theorem ordinal_of_plain_entry (plain : branch.parse.field.isCoapOption = false)
    (entry : matchEntry p.bytes direction branch bitLen scope state = .ok (some (value, matched))) :
    matched.coapOptionOrdinal = none := by
  rw [matchEntry, if_neg (fun both => by simp [plain] at both)] at entry
  dsimp only at entry
  rw [bind_eq_ok] at entry
  obtain ⟨own, -, entry⟩ := entry
  by_cases unexpected : bitLen.any (fun expected => own.bitLen ≠ expected)
  · rw [if_pos unexpected] at entry
    cases entry
  · rw [if_neg unexpected, bind_eq_ok] at entry
    obtain ⟨verdict, judged, entry⟩ := entry
    cases verdict with
    | none => cases entry
    | some verdict =>
      cases entry
      exact ordinal_of_matchesBranch judged

theorem Gathered.taken {next : CompressionState} (gathered : Gathered p direction state)
    (taken : Taken p.bytes direction branch state bitLen value matched next) :
    Gathered p direction next := by
  obtain ⟨ordinal, numbered, ordinals⟩ := taken.ordinals
  cases isOption : branch.parse.field.isCoapOption with
  | true =>
    obtain ⟨place, coap, option, rfl, placed⟩ :=
      placedAt_of_entry isOption taken.entry numbered branch.parse.entryIndex
    constructor
    · intro stored member plain
      rw [taken.fields, FieldStore.insert, List.mem_append, List.mem_singleton] at member
      rcases member with old | rfl
      · exact gathered.read stored old plain
      · rw [isOption] at plain
        cases plain
    · rw [taken.fields, FieldStore.insert, List.filter_append, ordinals]
      refine List.rel_append gathered.options ?_
      simp only [List.filter_cons, isOption, ↓reduceIte, List.filter_nil]
      exact .cons ⟨coap, option, placed⟩ .nil
  | false =>
    have none := optionOrdinal_plain isOption (ordinal_of_plain_entry isOption taken.entry) numbered
    subst none
    constructor
    · intro stored member plain
      rw [taken.fields, FieldStore.insert, List.mem_append, List.mem_singleton] at member
      rcases member with old | rfl
      · exact gathered.read stored old plain
      · exact readsFrom_of_entry isOption taken.entry
    · rw [taken.fields, FieldStore.insert, List.filter_append, ordinals]
      simpa [isOption] using gathered.options

theorem Gathered.advance {entry : FieldRule} {next : CompressionState}
    (gathered : Gathered p direction state)
    (advanced : advance p.bytes direction entry state = .ok (some next)) :
    Gathered p direction next := by
  unfold SchcCore.advance at advanced
  split at advanced
  · cases advanced
    exact gathered
  · rcases traverseBranch_some.mp advanced with ⟨-, rfl⟩ | ⟨-, bitLen, value, matched, taken⟩
    · exact gathered
    · exact gathered.taken taken

theorem Gathered.run {entries : List FieldRule} {last : CompressionState}
    (gathered : Gathered p direction state)
    (ran : runEntries p.bytes direction entries state = .ok (some last)) :
    Gathered p direction last := by
  induction entries generalizing state with
  | nil =>
    cases ran
    exact gathered
  | cons entry entries ih =>
    obtain ⟨next, advanced, rest⟩ := runEntries_cons.mp ran
    exact ih (gathered.advance advanced) rest

end

/- Values. -/

/-- The fields whose value does not depend on the rule or on what was extracted before. -/
def FieldRef.isHeader : FieldRef → Bool
  | .ipv6 _ => true
  | .udp _ => true
  | .coap (.known .coapToken) => false
  | .coap _ => true
  | .icmpv6 (.known .icmpv6Payload) => false
  | .icmpv6 _ => true
  | _ => false

theorem extractIcmpv6Field_header {name : FieldName} (header : FieldRef.isHeader (.icmpv6 name))
    (message : Icmpv6Message) (a b : Bool) :
    extractIcmpv6Field message name a = extractIcmpv6Field message name b := by
  unfold extractIcmpv6Field
  split <;> first | rfl | cases header

theorem extractCoapField_header {name : FieldName} (header : FieldRef.isHeader (.coap name))
    (coap : List UInt8) (a b : Option Nat) :
    extractCoapField coap name a = extractCoapField coap name b := by
  unfold extractCoapField
  apply bind_congr_ok
  intro message _
  split <;> first | rfl | cases header

section
variable {p : Ipv6Packet} {direction : Direction} {field : FieldRef} {scope : PacketScope}
  {value : FieldValue}

theorem extractField_header {parse other : ParseStep} (same : parse.field = other.field)
    (header : parse.field.isHeader) (packet : List UInt8) (direction : Direction)
    (a b : Option Nat) (scope : PacketScope) (coapA coapB : Bool)
    (stateA stateB : CompressionState) :
    extractField packet direction parse a scope coapA stateA =
      extractField packet direction other b scope coapB stateB := by
  unfold extractField
  apply bind_congr_ok
  intro source _
  rw [← same]
  dsimp only
  split
  · rfl
  · rfl
  · rename_i named
    rw [named] at header
    split
    · rfl
    · apply bind_congr_ok
      intro ipv6 _
      apply bind_congr_ok
      intro udp _
      exact extractCoapField_header header _ _ _
  · rename_i named
    rw [named] at header
    cases header
  · rename_i named
    rw [named] at header
    split
    · rfl
    · apply bind_congr_ok
      intro ipv6 _
      apply bind_congr_ok
      intro icmp _
      exact extractIcmpv6Field_header header _ _ _
  · rename_i named
    rw [named] at header
    cases header
  · rename_i named
    rw [named] at header
    cases header
  · rfl
  · rfl

/-- What was read for a header field is what a query for it answers. -/
theorem ReadsFrom.answer (read : ReadsFrom p direction field scope value)
    (header : field.isHeader) {answers : Answers} {coapPresent : Bool} {state : CompressionState}
    (answered : Answered p.bytes direction coapPresent state answers) {a : Query × FieldValue}
    (member : a ∈ answers) (named : a.1.key.field = field) (placed : a.1.key.scope = scope) :
    value = a.2 := by
  obtain ⟨parse, bitLen, present, earlier, own, extracted⟩ := read
  have asked := answered a member
  have same : a.1.step.field = parse.field := named.trans own.symm
  have fixed : a.1.step.field.isHeader := by
    rw [same, own]
    exact header
  rw [extractQuery, placed, extractField_header same fixed p.bytes direction a.1.bitLen bitLen scope
    coapPresent present state earlier, extracted] at asked
  exact Except.ok.inj asked

theorem ReadsFrom.token {u : UdpDatagram} {m : CoapMessage}
    (read : ReadsFrom p direction (.coap (.known .coapToken)) .outer value)
    (parsed : UdpDatagram.parse p.payload = .ok u) (coap : CoapMessage.parse u.payload = .ok m) :
    value = .ofBits (ofBytes m.token) := by
  obtain ⟨parse, bitLen, present, state, own, extracted⟩ := read
  have header := CoapMessage.header_of_parse coap
  have long := header.long
  rw [extractField, packetForScope_outer, ok_bind, own] at extracted
  change (Ipv6Packet.parse p.bytes >>= _) = _ at extracted
  rw [Ipv6Packet.parse_bytes, ok_bind, parsed, ok_bind] at extracted
  change (CoapMessage.parse u.payload >>= fun _ => extractCoapToken u.payload bitLen) = _ at extracted
  rw [coap, ok_bind] at extracted
  cases bitLen with
  | none => cases extracted
  | some bits =>
    simp only [extractCoapToken, reject_eq_ok (packetError_ne_ok _ _)] at extracted
    obtain ⟨aligned, extracted⟩ := extracted
    rw [index_eq (by omega), ok_bind, ← header.tokenLength,
      reject_eq_ok (packetError_ne_ok _ _), reject_eq_ok (packetError_ne_ok _ _)] at extracted
    obtain ⟨same, -, extracted⟩ := extracted
    have length : bits / 8 = m.token.length := not_not.mp same
    rw [length, slice_eq (by omega) long, ok_bind, ← header.token, bytesAsValue_whole] at extracted
    exact (Except.ok.inj extracted).symm

theorem ReadsFrom.unused {m : Icmpv6Message} (read : ReadsFrom p direction .unused .outer value)
    (parsed : Icmpv6Message.parse p.payload = .ok m) :
    value = .ofBits (ofBytes (cut m.bytes 4 8)) := by
  obtain ⟨parse, bitLen, present, state, own, extracted⟩ := read
  rw [extractField, packetForScope_outer, ok_bind, own] at extracted
  by_cases asked : bitLen = some 32
  · change (if bitLen ≠ some 32 then _ else extractUnusedField p.bytes) = _ at extracted
    rw [if_neg (fun other => other asked), extractUnusedField, packetForScope_outer, ok_bind,
      Ipv6Packet.parse_bytes, ok_bind, reject_eq_ok (packetError_ne_ok _ _), parsed, ok_bind,
      reject_eq_ok (packetError_ne_ok _ _)] at extracted
    obtain ⟨-, -, extracted⟩ := extracted
    by_cases short : m.bytes.length < 8
    · rw [dif_pos short] at extracted
      cases extracted
    · have whole := FieldValue.fromBytes_whole (cut m.bytes 4 8)
      rw [length_cut (by omega)] at whole
      rw [dif_neg short] at extracted
      exact Except.ok.inj (extracted.symm.trans whole)
  · change (if bitLen ≠ some 32 then _ else extractUnusedField p.bytes) = _ at extracted
    rw [if_pos asked] at extracted
    cases extracted

/-- Only an ICMPv6 error has an embedded packet to read from. -/
theorem ReadsFrom.embedded (read : ReadsFrom p direction field .embedded value) :
    ∃ m e, p.nextHeader = 58 ∧ Icmpv6Message.parse p.payload = .ok m ∧
      isIcmpv6ErrorType m.messageType ∧ Ipv6Packet.parse m.payload = .ok e := by
  obtain ⟨parse, bitLen, present, state, own, extracted⟩ := read
  rw [extractField, bind_eq_ok] at extracted
  obtain ⟨source, located, -⟩ := extracted
  rw [packetForScope, embeddedIpv6Packet, Ipv6Packet.parse_bytes, ok_bind,
    reject_eq_ok (packetError_ne_ok _ _), bind_eq_ok] at located
  obtain ⟨icmpv6, m, parsed, located⟩ := located
  rw [reject_eq_ok (packetError_ne_ok _ _), reject_eq_ok (packetError_ne_ok _ _), bind_eq_ok]
    at located
  obtain ⟨error, -, e, carried, -⟩ := located
  exact ⟨m, e, not_not.mp icmpv6, parsed, not_not.mp error, carried⟩

/-- The fields that an embedded packet does not have. -/
def FieldRef.isOuter : FieldRef → Bool
  | .coap _ => true
  | .icmpv6 _ => true
  | .unused => true
  | _ => false

theorem ReadsFrom.outer (read : ReadsFrom p direction field scope value) (own : field.isOuter) :
    scope = .outer := by
  cases scope with
  | outer => rfl
  | embedded =>
    obtain ⟨parse, bitLen, present, state, named, extracted⟩ := read
    rw [extractField, bind_eq_ok] at extracted
    obtain ⟨source, -, extracted⟩ := extracted
    rw [named] at extracted
    cases field with
    | coap name => cases extracted
    | icmpv6 name => cases extracted
    | unused => cases extracted
    | _ => cases own

end

/- Stores. -/

theorem stored_of_first {fields : FieldStore} {field : FieldRef} {scope : PacketScope}
    {value : FieldValue} (first : fields.firstByFieldScope field scope = some value) :
    ∃ stored ∈ fields, stored.1.field = field ∧ stored.1.scope = scope ∧ stored.2 = value := by
  obtain ⟨stored, member, found⟩ := List.exists_of_findSome?_eq_some first
  split at found
  · rename_i here
    exact ⟨stored, member, here.1, here.2, Option.some.inj found⟩
  · cases found

/-- Every stored value is the one that extraction reads for its key. -/
def Faithful (p : Ipv6Packet) (direction : Direction) (fields : FieldStore) : Prop :=
  ∀ stored ∈ fields, stored.1.field.isCoapOption = false →
    ReadsFrom p direction stored.1.field stored.1.scope stored.2

section
variable {p : Ipv6Packet} {direction : Direction} {fields : FieldStore} {field : FieldRef}
  {scope : PacketScope}

theorem Faithful.found (faithful : Faithful p direction fields) {value : FieldValue}
    (plain : field.isCoapOption = false)
    (first : fields.firstByFieldScope field scope = some value) :
    ReadsFrom p direction field scope value := by
  obtain ⟨stored, member, rfl, rfl, rfl⟩ := stored_of_first first
  exact faithful stored member plain

theorem Faithful.present (faithful : Faithful p direction fields)
    (plain : field.isCoapOption = false) (present : fields.containsFieldScope field scope) :
    ∃ value, fields.firstByFieldScope field scope = some value ∧
      ReadsFrom p direction field scope value := by
  obtain ⟨value, first⟩ := Option.isSome_iff_exists.mp present
  exact ⟨value, first, faithful.found plain first⟩

theorem FieldRef.plain_of_header (header : field.isHeader) : field.isCoapOption = false := by
  cases field with
  | coapOption number => cases header
  | _ => rfl

/-- A header field that is stored is stored with its answer. -/
theorem Faithful.answer (faithful : Faithful p direction fields) {answers : Answers}
    {coapPresent : Bool} {state : CompressionState}
    (answered : Answered p.bytes direction coapPresent state answers) {a : Query × FieldValue}
    (member : a ∈ answers) (header : a.1.key.field.isHeader)
    (present : fields.containsFieldScope a.1.key.field a.1.key.scope) :
    fields.firstByFieldScope a.1.key.field a.1.key.scope = some a.2 := by
  obtain ⟨value, first, read⟩ := faithful.present (FieldRef.plain_of_header header) present
  rw [first, read.answer header answered member rfl rfl]

/-- The store has a value for every query. -/
def FieldStore.covers (fields : FieldStore) (queries : List Query) : Bool :=
  queries.all (fun q => fields.containsFieldScope q.key.field q.key.scope)

theorem covers_append {a b : List Query} :
    fields.covers (a ++ b) ↔ fields.covers a ∧ fields.covers b := by
  rw [FieldStore.covers, List.all_append, Bool.and_eq_true]
  rfl

theorem covers_mem {queries : List Query} (covered : fields.covers queries) {q : Query}
    (member : q ∈ queries) : fields.containsFieldScope q.key.field q.key.scope :=
  List.all_eq_true.mp covered q member

/-- Where the queries of answers are covered, the store has the answers. -/
theorem Faithful.answers (faithful : Faithful p direction fields) {answers : Answers}
    {coapPresent : Bool} {state : CompressionState}
    (answered : Answered p.bytes direction coapPresent state answers)
    (covered : fields.covers answers.queries) {a : Query × FieldValue} (member : a ∈ answers)
    (header : a.1.key.field.isHeader) :
    fields.firstByFieldScope a.1.key.field a.1.key.scope = some a.2 :=
  faithful.answer answered member header (covers_mem covered (List.mem_map_of_mem member))

theorem Faithful.header (faithful : Faithful p direction fields) {e : Ipv6Packet}
    (located : packetForScope p.bytes scope = .ok e.bytes)
    (covered : fields.covers (ipv6Queries scope)) :
    StoresHeader fields scope e (scope.orient direction) := by
  have stored : ∀ a ∈ ipv6Answers e (scope.orient direction) scope, a.1.key.field.isHeader →
      fields.firstByFieldScope a.1.key.field a.1.key.scope = some a.2 := by
    intro a member header
    have answered : Answered p.bytes direction false .initial _ := answered_ipv6 located
    exact faithful.answers answered covered member header
  simp only [ipv6Answers, List.forall_mem_cons] at stored
  obtain ⟨version, trafficClass, flowLabel, nextHeader, hopLimit, devPrefix, devIid, appPrefix,
    appIid, -⟩ := stored
  exact ⟨version rfl, trafficClass rfl, flowLabel rfl, nextHeader rfl, hopLimit rfl, devPrefix rfl,
    devIid rfl, appPrefix rfl, appIid rfl⟩

theorem Faithful.ports (faithful : Faithful p direction fields) {e : Ipv6Packet} {u : UdpDatagram}
    (located : packetForScope p.bytes scope = .ok e.bytes)
    (parsed : UdpDatagram.parse e.payload = .ok u) (covered : fields.covers (udpQueries scope)) :
    Stores fields scope (.udp (.known .udpDevPort)) 16 (u.devPort (scope.orient direction)) ∧
      Stores fields scope (.udp (.known .udpAppPort)) 16 (u.appPort (scope.orient direction)) := by
  have stored : ∀ a ∈ udpAnswers u (scope.orient direction) scope, a.1.key.field.isHeader →
      fields.firstByFieldScope a.1.key.field a.1.key.scope = some a.2 := by
    intro a member header
    have answered : Answered p.bytes direction false .initial _ := answered_udp located parsed
    exact faithful.answers answered covered member header
  simp only [udpAnswers, List.forall_mem_cons] at stored
  obtain ⟨devPort, appPort, -⟩ := stored
  exact ⟨devPort rfl, appPort rfl⟩

/-- The queries for the header of a CoAP message; an empty token needs none. -/
def coapHeaderQueries (m : CoapMessage) : List Query :=
  [.coapVersion, .coapType, .coapTkl, .coapCode, .coapMid].map
      (fun name => PacketScope.outer.query (.coap (.known name))) ++
    if m.token = [] then [] else [PacketScope.outer.query (.coap (.known .coapToken))]

/-- A store with the fixed fields of a CoAP header. -/
structure StoresCoapHeader (fields : FieldStore) (m : CoapMessage) : Prop where
  version : Stores fields .outer (.coap (.known .coapVersion)) 2 m.version.toNat
  messageType : Stores fields .outer (.coap (.known .coapType)) 2 m.messageType.toNat
  tokenLength : Stores fields .outer (.coap (.known .coapTkl)) 4 m.token.length
  code : Stores fields .outer (.coap (.known .coapCode)) 8 m.code.toNat
  messageId : Stores fields .outer (.coap (.known .coapMid)) 16 m.messageId.toNat

theorem Faithful.coapHeader (faithful : Faithful p direction fields) {u : UdpDatagram}
    {m : CoapMessage} (parsed : UdpDatagram.parse p.payload = .ok u)
    (coap : CoapMessage.parse u.payload = .ok m) (covered : fields.covers (coapHeaderQueries m)) :
    StoresCoapHeader fields m := by
  rw [coapHeaderQueries, covers_append] at covered
  have stored : ∀ a ∈ coapHeaderAnswers m, a.1.key.field.isHeader →
      fields.containsFieldScope a.1.key.field a.1.key.scope →
      fields.firstByFieldScope a.1.key.field a.1.key.scope = some a.2 := by
    intro a member header present
    have answered : Answered p.bytes direction false .initial _ :=
      answered_coap (packetForScope_outer p) parsed coap
    exact faithful.answer answered (List.mem_append_left _ member) header present
  have present : ∀ name ∈ [KnownName.coapVersion, .coapType, .coapTkl, .coapCode, .coapMid],
      fields.containsFieldScope (.coap (.known name)) .outer := by
    intro name member
    exact covers_mem covered.1 (List.mem_map_of_mem member)
  simp only [coapHeaderAnswers, List.forall_mem_cons] at stored present
  obtain ⟨version, messageType, tokenLength, code, messageId, -⟩ := stored
  obtain ⟨hasVersion, hasType, hasLength, hasCode, hasId, -⟩ := present
  exact ⟨version rfl hasVersion, messageType rfl hasType, tokenLength rfl hasLength,
    code rfl hasCode, messageId rfl hasId⟩

theorem Faithful.coapToken (faithful : Faithful p direction fields) {u : UdpDatagram}
    {m : CoapMessage} (parsed : UdpDatagram.parse p.payload = .ok u)
    (coap : CoapMessage.parse u.payload = .ok m) (covered : fields.covers (coapHeaderQueries m)) :
    coapToken fields .outer m.token.length = .ok m.token := by
  rw [SchcCore.coapToken]
  cases first : fields.firstByFieldScope (.coap (.known .coapToken)) .outer with
  | some value =>
    have whole := (faithful.found rfl first).token parsed coap
    subst whole
    have aligned : ¬ (FieldValue.ofBits (ofBytes m.token)).bitLen ≠ m.token.length * 8 := by
      rw [FieldValue.bitLen_ofBits, length_ofBytes]
      omega
    have blank : ¬ (m.token.length = 0 ∧ (FieldValue.ofBits (ofBytes m.token)).bytes ≠ []) := by
      rintro ⟨none, some⟩
      rw [FieldValue.bytes_ofBits_ofBytes] at some
      exact some (List.length_eq_zero_iff.mp none)
    dsimp only
    rw [if_neg aligned, if_neg blank, FieldValue.bytes_ofBits_ofBytes]
  | none =>
    by_cases empty : m.token = []
    · rw [empty]
      rfl
    · rw [coapHeaderQueries, if_neg empty, covers_append] at covered
      have present := covers_mem covered.2 List.mem_cons_self
      rw [FieldStore.containsFieldScope] at present
      change (fields.firstByFieldScope (.coap (.known .coapToken)) .outer).isSome = true at present
      rw [first] at present
      cases present

theorem Faithful.icmpv6 (faithful : Faithful p direction fields) {m : Icmpv6Message}
    (icmpv6 : p.nextHeader = 58) (parsed : Icmpv6Message.parse p.payload = .ok m)
    (covered : fields.covers (icmpv6Queries m.messageType)) :
    ∀ a ∈ icmpv6Answers m, a.1.key.field.isHeader →
      fields.firstByFieldScope a.1.key.field a.1.key.scope = some a.2 := by
  intro a member header
  rw [← queries_icmpv6Answers] at covered
  have answered : Answered p.bytes direction false .initial _ :=
    answered_icmpv6 (packetForScope_outer p) icmpv6 parsed
  exact faithful.answers answered covered member header

theorem Faithful.icmpv6Header (faithful : Faithful p direction fields) {m : Icmpv6Message}
    (icmpv6 : p.nextHeader = 58) (parsed : Icmpv6Message.parse p.payload = .ok m)
    (covered : fields.covers (icmpv6Queries m.messageType)) :
    Stores fields .outer (.icmpv6 (.known .icmpv6Type)) 8 m.messageType.toNat ∧
      Stores fields .outer (.icmpv6 (.known .icmpv6Code)) 8 (byteAt m.bytes 1).toNat := by
  have stored := faithful.icmpv6 icmpv6 parsed covered
  simp only [icmpv6Answers, icmpv6HeaderAnswers, List.cons_append, List.forall_mem_cons] at stored
  exact ⟨stored.1 rfl, stored.2.1 rfl⟩

theorem Faithful.typeWord (faithful : Faithful p direction fields) {m : Icmpv6Message}
    (icmpv6 : p.nextHeader = 58) (parsed : Icmpv6Message.parse p.payload = .ok m)
    (error : isIcmpv6ErrorType m.messageType)
    (covered : fields.covers (icmpv6Queries m.messageType)) :
    icmpv6TypeWord fields .outer m.messageType = .ok (.ofBits (ofBytes (cut m.bytes 4 8))) := by
  obtain ⟨-, -, -, quiet, named⟩ := icmpv6_types m.messageType
  have echo : ¬ isEchoType m.messageType := by
    rw [quiet error]
    exact Bool.false_ne_true
  have stored := faithful.icmpv6 icmpv6 parsed covered
  by_cases unused : hasIcmpv6UnusedField m.messageType
  · rw [icmpv6Queries, if_neg echo, if_pos unused, covers_append] at covered
    obtain ⟨value, first, read⟩ := faithful.present rfl (covers_mem covered.2 List.mem_cons_self)
    change fields.firstByFieldScope .unused .outer = some value at first
    rw [icmpv6TypeWord, if_pos unused, first, read.unused parsed]
  · rcases named error (by simpa using unused) with mtu | pointer
    · have second : secondWordAnswers m = _ :=
        (if_neg echo).trans ((if_neg unused).trans (if_pos mtu))
      have first := stored _ (List.mem_append_right _ (second ▸ List.mem_cons_self)) rfl
      change fields.firstByFieldScope (.icmpv6 (.known .icmpv6Mtu)) .outer = _ at first
      rw [icmpv6TypeWord, if_neg unused, if_pos mtu, first]
    · have other : ¬ m.messageType = 2 := by
        rw [pointer]
        decide
      have second : secondWordAnswers m = _ :=
        (if_neg echo).trans ((if_neg unused).trans ((if_neg other).trans (if_pos pointer)))
      have first := stored _ (List.mem_append_right _ (second ▸ List.mem_cons_self)) rfl
      change fields.firstByFieldScope (.icmpv6 (.known .icmpv6Pointer)) .outer = _ at first
      rw [icmpv6TypeWord, if_neg unused, if_neg other, first]

/-- The words of an echo message, and nothing for another message. -/
theorem Faithful.echoWords (faithful : Faithful p direction fields) {m : Icmpv6Message}
    (icmpv6 : p.nextHeader = 58) (parsed : Icmpv6Message.parse p.payload = .ok m)
    (ordinary : isIcmpv6ErrorType m.messageType = false)
    (covered : fields.covers (icmpv6Queries m.messageType)) :
    echoWords fields .outer m.messageType = .ok (cut m.bytes 4 m.payloadOffset) := by
  have header := m.header
  by_cases echo : isEchoType m.messageType
  · have offset : m.payloadOffset = 8 := payloadOffset_eight (.inl echo)
    have long : 8 ≤ m.bytes.length := offset.symm.trans_le header
    have second : secondWordAnswers m = _ := if_pos echo
    have stored := faithful.icmpv6 icmpv6 parsed covered
    rw [icmpv6Answers, second] at stored
    have identifier : Stores fields .outer (.icmpv6 (.known .icmpv6Identifier)) 16
        (value [byteAt m.bytes 4, byteAt m.bytes 5]) :=
      stored _ (List.mem_append_right _ List.mem_cons_self) rfl
    have sequence : Stores fields .outer (.icmpv6 (.known .icmpv6Sequence)) 16
        (value [byteAt m.bytes 6, byteAt m.bytes 7]) :=
      stored _ (List.mem_append_right _ (List.mem_cons_of_mem _ List.mem_cons_self)) rfl
    have present : fields.containsFieldScope (.icmpv6 (.known .icmpv6Identifier)) .outer := by
      rw [containsFieldScope, identifier]
      rfl
    rw [SchcCore.echoWords, if_pos ⟨echo, present⟩, identifier.firstU16At (by decide)
        (value_two_lt (byteAt m.bytes 4) (byteAt m.bytes 5)), ok_bind,
      sequence.firstU16At (by decide) (value_two_lt (byteAt m.bytes 6) (byteAt m.bytes 7)),
      ok_bind, toBytes_two, toBytes_two, ← cut_two (show 4 + 1 < m.bytes.length by omega),
      ← cut_two (show 6 + 1 < m.bytes.length by omega), cut_append_cut _ (by decide) (by decide),
      offset]
  · have offset : m.payloadOffset = 4 := by
      rw [Icmpv6Message.payloadOffset, icmpv6PayloadOffset, if_neg (by simp [echo, ordinary])]
    rw [SchcCore.echoWords, if_neg fun both => echo both.1, offset, cut, List.drop_take, Nat.sub_self,
      List.take_zero]

/- Lengths and checksums. -/

theorem extractField_ipv6 {e : Ipv6Packet} (located : packetForScope p.bytes scope = .ok e.bytes)
    {parse : ParseStep} {name : KnownName} (named : parse.field = .ipv6 (.known name))
    (bitLen : Option Nat) (present : Bool) (state : CompressionState) :
    extractField p.bytes direction parse bitLen scope present state =
      extractIpv6Field e.bytes (scope.orient direction) (.known name) := by
  rw [extractField, located, ok_bind, orient_eq, named]

theorem ReadsFrom.payloadLength {e : Ipv6Packet}
    (located : packetForScope p.bytes scope = .ok e.bytes) {value : FieldValue}
    (read : ReadsFrom p direction (.ipv6 (.known .ipv6PayloadLength)) scope value) :
    value = word 16 e.payload.length := by
  obtain ⟨parse, bitLen, present, state, named, extracted⟩ := read
  have length := e.length_payload
  have declared := e.declared
  have same : BigEndian.value [byteAt e.bytes 4, byteAt e.bytes 5] = e.payload.length := by omega
  rw [extractField_ipv6 located named, extractIpv6Field, Ipv6Packet.parse_bytes, ok_bind] at extracted
  change FieldValue.fromU64 (BigEndian.value [byteAt e.bytes 4, byteAt e.bytes 5]) 16 = _ at extracted
  rw [same, FieldValue.fromU64_eq (by decide) e.payload_lt] at extracted
  exact (Except.ok.inj extracted).symm

theorem ReadsFrom.udp {e : Ipv6Packet} (located : packetForScope p.bytes scope = .ok e.bytes)
    {name : KnownName} {value : FieldValue}
    (read : ReadsFrom p direction (.udp (.known name)) scope value) :
    ∃ u, UdpDatagram.parse e.payload = .ok u ∧
      extractUdpField u (scope.orient direction) (.known name) = .ok value := by
  obtain ⟨parse, bitLen, present, state, named, extracted⟩ := read
  rw [extractField, located, ok_bind, orient_eq, named] at extracted
  change (Ipv6Packet.parse e.bytes >>= _) = _ at extracted
  rw [Ipv6Packet.parse_bytes, ok_bind, bind_eq_ok] at extracted
  exact extracted

/-- The checksum that the datagram has. -/
def UdpDatagram.checksum (u : UdpDatagram) : Nat := value [byteAt u.bytes 6, byteAt u.bytes 7]

theorem ReadsFrom.udpLength {e : Ipv6Packet} {u : UdpDatagram}
    (located : packetForScope p.bytes scope = .ok e.bytes)
    (parsed : UdpDatagram.parse e.payload = .ok u) {value : FieldValue}
    (read : ReadsFrom p direction (.udp (.known .udpLength)) scope value) :
    value = word 16 u.bytes.length := by
  obtain ⟨own, same, extracted⟩ := read.udp located
  cases parsed.symm.trans same
  change FieldValue.fromU64 (BigEndian.value [byteAt u.bytes 4, byteAt u.bytes 5]) 16 = _ at extracted
  rw [u.declared, FieldValue.fromU64_eq (by decide) (udp_short parsed)] at extracted
  exact (Except.ok.inj extracted).symm

theorem ReadsFrom.udpChecksum {e : Ipv6Packet} {u : UdpDatagram}
    (located : packetForScope p.bytes scope = .ok e.bytes)
    (parsed : UdpDatagram.parse e.payload = .ok u) {value : FieldValue}
    (read : ReadsFrom p direction (.udp (.known .udpChecksum)) scope value) :
    value = word 16 u.checksum := by
  obtain ⟨own, same, extracted⟩ := read.udp located
  cases parsed.symm.trans same
  change FieldValue.fromU64 u.checksum 16 = _ at extracted
  rw [FieldValue.fromU64_eq (by decide) (value_two_lt (byteAt u.bytes 6) (byteAt u.bytes 7))]
    at extracted
  exact (Except.ok.inj extracted).symm

/-- The checksum that the message has. -/
def Icmpv6Message.checksum (m : Icmpv6Message) : Nat := value [byteAt m.bytes 2, byteAt m.bytes 3]

theorem ReadsFrom.icmpv6 {name : KnownName} {value : FieldValue}
    (read : ReadsFrom p direction (.icmpv6 (.known name)) .outer value) :
    ∃ m structured, Icmpv6Message.parse p.payload = .ok m ∧
      extractIcmpv6Field m (.known name) structured = .ok value := by
  obtain ⟨parse, bitLen, present, state, named, extracted⟩ := read
  rw [extractField, packetForScope_outer, ok_bind, named] at extracted
  change (Ipv6Packet.parse p.bytes >>= _) = _ at extracted
  rw [Ipv6Packet.parse_bytes, ok_bind, bind_eq_ok] at extracted
  obtain ⟨m, parsed, extracted⟩ := extracted
  exact ⟨m, _, parsed, extracted⟩

theorem ReadsFrom.icmpv6Checksum {m : Icmpv6Message}
    (parsed : Icmpv6Message.parse p.payload = .ok m) {value : FieldValue}
    (read : ReadsFrom p direction (.icmpv6 (.known .icmpv6Checksum)) .outer value) :
    value = word 16 m.checksum := by
  obtain ⟨own, structured, same, extracted⟩ := read.icmpv6
  cases parsed.symm.trans same
  change FieldValue.fromU64 m.checksum 16 = _ at extracted
  rw [FieldValue.fromU64_eq (by decide) (value_two_lt (byteAt m.bytes 2) (byteAt m.bytes 3))]
    at extracted
  exact (Except.ok.inj extracted).symm

end

end SchcCore
