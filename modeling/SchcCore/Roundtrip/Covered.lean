import SchcCore.Roundtrip.Joined
import SchcCore.Roundtrip.Residue

/- When the carried suffix starts where the rebuilt header ends. The sender splits the packet by
   the protocols that occur among the stored fields, the receiver rebuilds a header from the
   fields one by one; the two agree when no field of a started header is missing. -/
namespace SchcCore
open Outcome Bytes BigEndian BitList FieldStore

/- What the receiver has of a store. -/

/-- The stored fields but for those of compute entries. Every entry that is active and no marker
    stored one field, in order. -/
def sentFields (direction : Direction) : List FieldRule → FieldStore → FieldStore
  | [], _ => []
  | entry :: entries, fields =>
      if ¬ entry.direction.accepts direction ∨ entry.field = .syntheticCoapMarker then
        sentFields direction entries fields
      else
        match fields with
        | [] => []
        | stored :: fields =>
            if entry.action = .compute then sentFields direction entries fields
            else stored :: sentFields direction entries fields

/-- Only values that can be computed are left out. -/
structure Elides (fields sent : FieldStore) : Prop where
  kept : sent.filter (fun stored => !isComputeSupported stored.1.field) =
    fields.filter (fun stored => !isComputeSupported stored.1.field)
  within : ∀ stored ∈ sent, stored ∈ fields

theorem Elides.nil : Elides [] [] := ⟨rfl, fun _ member => member⟩

theorem Elides.drop {fields sent : FieldStore} (elides : Elides fields sent)
    {stored : FieldKey × FieldValue} (computed : isComputeSupported stored.1.field) :
    Elides (stored :: fields) sent := by
  constructor
  · rw [List.filter_cons_of_neg (by simpa using computed)]
    exact elides.kept
  · intro other member
    exact List.mem_cons_of_mem _ (elides.within other member)

theorem Elides.keep {fields sent : FieldStore} (elides : Elides fields sent)
    (stored : FieldKey × FieldValue) : Elides (stored :: fields) (stored :: sent) := by
  constructor
  · rw [List.filter_cons, List.filter_cons, elides.kept]
  · intro other member
    rcases List.mem_cons.mp member with rfl | later
    · exact List.mem_cons_self
    · exact List.mem_cons_of_mem _ (elides.within other later)

/-- Along a run the store grows by one field for each entry that counts. -/
theorem run_elides {packet : List UInt8} {direction : Direction} {entries : List FieldRule}
    {state last : CompressionState}
    (computed : ∀ entry ∈ entries, entry.action = .compute → isComputeSupported entry.field)
    (ran : runEntries packet direction entries state = .ok (some last)) :
    ∃ added, last.fields = state.fields ++ added ∧
      Elides added (sentFields direction entries added) := by
  induction entries generalizing state with
  | nil =>
    cases ran
    exact ⟨[], (List.append_nil _).symm, Elides.nil⟩
  | cons entry entries ih =>
    obtain ⟨next, advanced, rest⟩ := runEntries_cons.mp ran
    obtain ⟨added, grown, elides⟩ := ih (fun e member => computed e (List.mem_cons_of_mem _ member)) rest
    have skip : ¬ entry.direction.accepts direction ∨ entry.field = .syntheticCoapMarker →
        next = state → ∃ added, last.fields = state.fields ++ added ∧
          Elides added (sentFields direction (entry :: entries) added) := by
      intro silent same
      subst same
      refine ⟨added, grown, ?_⟩
      unfold sentFields
      rw [if_pos silent]
      exact elides
    unfold advance at advanced
    split at advanced
    · rename_i inactive
      cases advanced
      exact skip (.inl inactive) rfl
    · rename_i active
      rcases traverseBranch_some.mp advanced with ⟨marker, same⟩ | ⟨plain, bitLen, value, matched, taken⟩
      · exact skip (.inr marker) same
      · rw [taken.fields, FieldStore.insert, List.append_assoc] at grown
        refine ⟨_, grown, ?_⟩
        have counts : ¬ (¬ entry.direction.accepts direction ∨
            entry.field = .syntheticCoapMarker) := by
          rintro (inactive | marker)
          · exact active inactive
          · exact plain marker
        simp only [List.cons_append, List.nil_append, sentFields, if_neg counts]
        split
        · rename_i compute
          exact elides.drop (computed entry List.mem_cons_self compute)
        · exact elides.keep _

section
variable {fields sent : FieldStore} {field : FieldRef}

theorem any_filter_of_none {α : Type} {f keep : α → Bool} {xs : List α}
    (dropped : ∀ x ∈ xs, keep x = false → f x = false) : (xs.filter keep).any f = xs.any f := by
  induction xs with
  | nil => rfl
  | cons x xs ih =>
    have rest := ih fun y member => dropped y (List.mem_cons_of_mem x member)
    by_cases kept : keep x
    · rw [List.filter_cons_of_pos kept, List.any_cons, List.any_cons, rest]
    · rw [List.filter_cons_of_neg kept, List.any_cons,
        dropped x List.mem_cons_self (by simpa using kept), rest, Bool.false_or]

/-- What is asked of fields that cannot be computed has one answer in both stores. -/
theorem Elides.any (elides : Elides fields sent) {f : FieldKey × FieldValue → Bool}
    (apart : ∀ stored, isComputeSupported stored.1.field → f stored = false) :
    sent.any f = fields.any f := by
  have dropped : ∀ xs : FieldStore, ∀ stored ∈ xs,
      (!isComputeSupported stored.1.field) = false → f stored = false := by
    intro xs stored _ removed
    exact apart stored (by simpa using removed)
  rw [← any_filter_of_none (dropped sent), elides.kept, any_filter_of_none (dropped fields)]

theorem Elides.firstByFieldScope (elides : Elides fields sent)
    (apart : isComputeSupported field = false) (scope : PacketScope) :
    sent.firstByFieldScope field scope = fields.firstByFieldScope field scope := by
  have dropped : ∀ xs : FieldStore, ∀ stored ∈ xs,
      (!isComputeSupported stored.1.field) = false →
        (if stored.1.field = field ∧ stored.1.scope = scope then some stored.2 else none) = none := by
    intro xs stored _ removed
    apply if_neg
    rintro ⟨same, -⟩
    rw [same, apart] at removed
    cases removed
  rw [FieldStore.firstByFieldScope, ← findSome?_filter_of_none (dropped sent), elides.kept,
    findSome?_filter_of_none (dropped fields)]
  rfl

theorem Elides.containsFieldScope (elides : Elides fields sent)
    (apart : isComputeSupported field = false) (scope : PacketScope) :
    sent.containsFieldScope field scope = fields.containsFieldScope field scope := by
  rw [FieldStore.containsFieldScope, elides.firstByFieldScope apart]
  rfl

theorem Elides.hasExplicitPayload (elides : Elides fields sent) :
    sent.hasExplicitPayload = fields.hasExplicitPayload := by
  apply elides.any
  intro stored computed
  split
  all_goals first | rfl | (rename_i same; rw [same] at computed; cases computed)

/-- A field or an option of CoAP is stored. -/
def FieldStore.hasCoap (fields : FieldStore) : Bool :=
  fields.any (fun entry => match entry.1.field with
    | .coap _ => true
    | .coapOption _ => true
    | _ => false)

theorem Elides.hasCoap (elides : Elides fields sent) : sent.hasCoap = fields.hasCoap := by
  apply elides.any
  intro stored computed
  split
  all_goals first | rfl | (rename_i same; rw [same] at computed; cases computed)

theorem Elides.faithful {p : Ipv6Packet} {direction : Direction} (elides : Elides fields sent)
    (faithful : Faithful p direction fields) : Faithful p direction sent :=
  fun stored member plain => faithful stored (elides.within stored member) plain

theorem containsField_of_scope {scope : PacketScope}
    (present : fields.containsFieldScope field scope) : fields.containsField field := by
  obtain ⟨value, first⟩ := Option.isSome_iff_exists.mp present
  obtain ⟨stored, member, named, -, -⟩ := stored_of_first first
  exact List.any_eq_true.mpr ⟨stored, member, decide_eq_true named⟩

end

/- CoAP options. -/

theorem coapOptions_filter (scope : PacketScope) (fields : FieldStore) :
    coapOptions scope fields =
      coapOptions scope (fields.filter (fun stored => stored.1.field.isCoapOption)) := by
  induction fields with
  | nil => rfl
  | cons stored fields ih =>
    obtain ⟨key, value⟩ := stored
    cases named : key.field with
    | coapOption number =>
      rw [List.filter_cons_of_pos (by simp [FieldRef.isCoapOption, named])]
      simp only [coapOptions, named, ih]
    | _ =>
      rw [List.filter_cons_of_neg (by simp [FieldRef.isCoapOption, named])]
      simp only [coapOptions, named, ih]

/-- Options stored from consecutive places of the message are a stretch of its options. -/
theorem coapOptions_placed {p : Ipv6Packet} {m : CoapMessage} (message : outerCoap p.bytes = .ok m)
    (short : ∀ o ∈ m.options, o.value.length ≤ 65804) {stored : FieldStore} {ordinals : List Nat}
    (placed : List.Forall₂ (fun stored ordinal =>
      ∃ coap option, PlacedAt p stored ordinal coap option) stored ordinals) {start count : Nat}
    (consecutive : ordinals = List.range' start count) :
    coapOptions .outer stored = .ok ((m.options.drop start).take count) := by
  induction placed generalizing start count with
  | nil =>
    have none : count = 0 := by
      have lengths := congrArg List.length consecutive
      simpa using lengths.symm
    rw [none]
    rfl
  | @cons entry ordinal stored ordinals here placed ih =>
    obtain ⟨coap, option, at_place⟩ := here
    obtain ⟨key, value⟩ := entry
    cases count with
    | zero => cases consecutive
    | succ count =>
      rw [List.range'_succ] at consecutive
      obtain ⟨rfl, rest⟩ := List.cons.inj consecutive
      have same : m = coap := Except.ok.inj (message.symm.trans at_place.message)
      subst same
      obtain ⟨inside, option_eq⟩ := List.getElem?_eq_some_iff.mp at_place.there
      have small : option.number.toNat < 2 ^ 32 := option.number.toNat_lt
      have length := short option (List.mem_of_getElem? at_place.there)
      have narrow : ¬ option.value.length ≥ 2 ^ 32 := by omega
      have encodable : ¬ option.value.length > 65804 := by omega
      have field : key.field = .coapOption option.number.toNat := at_place.field
      have scope : key.scope = .outer := at_place.scope
      have whole : value = option.field := at_place.value
      have made : CoapOption.new (UInt32.ofNat option.number.toNat) value.bytes = .ok option := by
        rw [whole, CoapOption.field, FieldValue.bytes_ofBits_ofBytes, CoapOption.new, if_neg narrow,
          if_neg encodable, UInt32.ofNat_toNat]
      simp only [coapOptions, field, scope, small, ↓reduceIte, made, ok_bind, ih rest]
      rw [List.drop_eq_getElem_cons inside, List.take_succ_cons, option_eq]

/-- The stored options are the leading ones, as many as the boundary counts. -/
theorem Gathered.leading {p : Ipv6Packet} {direction : Direction} {state : CompressionState}
    (gathered : Gathered p direction state) {sent : FieldStore} (elides : Elides state.fields sent)
    {m : CoapMessage} (message : outerCoap p.bytes = .ok m)
    (short : ∀ o ∈ m.options, o.value.length ≤ 65804) {boundary : Nat}
    (bounded : coapOptionBoundary state = some boundary) :
    coapOptions .outer sent = .ok (m.options.take boundary) := by
  have plain : ∀ xs : FieldStore, (xs.filter (fun stored => !isComputeSupported stored.1.field)).filter
      (fun stored => stored.1.field.isCoapOption) =
        xs.filter (fun stored => stored.1.field.isCoapOption) := by
    intro xs
    rw [List.filter_filter]
    apply List.filter_congr
    intro stored _
    cases stored.1.field <;> rfl
  have same : sent.filter (fun stored => stored.1.field.isCoapOption) =
      state.fields.filter (fun stored => stored.1.field.isCoapOption) := by
    rw [← plain sent, elides.kept, plain]
  unfold coapOptionBoundary at bounded
  split at bounded
  · rename_i consecutive
    cases bounded
    rw [coapOptions_filter, same]
    rw [List.range_eq_range'] at consecutive
    have done := coapOptions_placed message short gathered.options consecutive
    rwa [List.drop_zero] at done
  · cases bounded

/- Stores without a payload. -/

def payloadFields : List FieldRef :=
  [.payload, .udp (.known .udpPayload), .coap (.known .coapPayload), .icmpv6 (.known .icmpv6Payload)]

section
variable {fields : FieldStore} {scope : PacketScope}

theorem first_of_silent (silent : fields.hasExplicitPayload = false) {field : FieldRef}
    (payload : field ∈ payloadFields) : fields.firstByFieldScope field scope = none := by
  rw [Option.eq_none_iff_forall_ne_some]
  intro value first
  obtain ⟨stored, member, named, -, -⟩ := stored_of_first first
  have quiet := List.any_eq_false.mp silent stored member
  rw [named] at quiet
  fin_cases payload <;> exact quiet rfl

theorem contains_of_silent (silent : fields.hasExplicitPayload = false) {field : FieldRef}
    (payload : field ∈ payloadFields) : fields.containsField field = false := by
  rw [FieldStore.containsField, List.any_eq_false]
  intro stored member here
  have quiet := List.any_eq_false.mp silent stored member
  rw [of_decide_eq_true here] at quiet
  fin_cases payload <;> exact quiet rfl

theorem sharedPayload_silent (silent : fields.hasExplicitPayload = false) {field : FieldRef}
    (payload : field ∈ payloadFields) : sharedPayload fields scope field = .ok [] := by
  rw [sharedPayload, first_of_silent silent payload, first_of_silent silent List.mem_cons_self]

theorem udpPayload_silent (silent : fields.hasExplicitPayload = false) (coap : List UInt8) :
    udpPayload fields scope coap = .ok coap := by
  rw [udpPayload, first_of_silent silent (by simp [payloadFields]),
    sharedPayload_silent silent (by simp [payloadFields])]
  split
  · rename_i empty
    rw [empty]
  · rfl

end

/-- The CoAP header and the leading options are written as the front of the message. -/
theorem Faithful.reconstructCoap {p : Ipv6Packet} {direction : Direction} {sent : FieldStore}
    (faithful : Faithful p direction sent) {u : UdpDatagram} {m leading : CoapMessage}
    (parsed : UdpDatagram.parse p.payload = .ok u) (coap : CoapMessage.parse u.payload = .ok m)
    (covered : sent.covers (coapHeaderQueries m)) (silent : sent.hasExplicitPayload = false)
    {options : List CoapOption} (stored : coapOptions .outer sent = .ok options)
    (made : CoapMessage.fromParts m.version m.messageType m.code m.messageId m.token options [] =
      .ok leading) {bytes : List UInt8} (written : leading.toVec = .ok bytes) :
    reconstructCoap sent .outer = .ok bytes := by
  have stores := faithful.coapHeader parsed coap covered
  obtain ⟨versionSmall, typeSmall, tokenShort⟩ := fromParts_bounds made
  have version : m.version.toNat ≤ 3 := versionSmall
  have messageType : m.messageType.toNat ≤ 3 := typeSmall
  have readVersion := stores.version.firstU8At (by decide) (by omega)
  have readType := stores.messageType.firstU8At (by decide) (by omega)
  have readLength := stores.tokenLength.firstU8At (by decide) (by omega)
  have readCode := stores.code.firstU8At (by decide) m.code.toNat_lt
  have readId := stores.messageId.firstU16At (by decide) m.messageId.toNat_lt
  have ranges : ¬ (m.version.toNat > 3 ∨ m.messageType.toNat > 3 ∨ m.token.length > 8) := by omega
  have payload : sharedPayload sent .outer (.coap (.known .coapPayload)) = .ok [] :=
    sharedPayload_silent silent (by simp [payloadFields])
  simp only [SchcCore.reconstructCoap, readVersion, readType, readLength, readCode, readId, ok_bind]
  rw [if_neg ranges, faithful.coapToken parsed coap covered, ok_bind, stored, ok_bind, payload,
    ok_bind]
  simp only [UInt8.ofNat_toNat, UInt16.ofNat_toNat, made, ok_bind, written]

/- The split. -/

theorem carryThroughSuffix_some {p : Ipv6Packet} {state : CompressionState} {suffix : List UInt8}
    (carried : carryThroughSuffix p.bytes state = .ok (some suffix)) :
    state.fields.hasExplicitPayload = false ∧ ∃ offset, coveredLength p state = .ok (some offset) ∧
      offset ≤ p.bytes.length ∧ suffix = p.bytes.drop offset := by
  unfold carryThroughSuffix at carried
  split at carried
  · cases carried
  · rename_i silent
    rw [Ipv6Packet.parse_bytes, ok_bind, bind_eq_ok] at carried
    obtain ⟨covered, reached, carried⟩ := carried
    cases covered with
    | none => cases carried
    | some offset =>
      dsimp only at carried
      split at carried
      · cases carried
      · cases carried
        exact ⟨by simpa using silent, offset, reached, by omega, rfl⟩

section
variable {p : Ipv6Packet} {state : CompressionState} {offset : Nat}

theorem coveredLength_udp (udp : p.nextHeader = 17)
    (port : state.fields.containsField (.udp (.known .udpDevPort)))
    (plain : state.fields.hasCoap = false)
    (reached : coveredLength p state = .ok (some offset)) : offset = 48 := by
  rw [coveredLength, if_pos ⟨udp, port⟩] at reached
  change (if state.fields.hasCoap then _ else Except.ok (some 48)) = _ at reached
  rw [if_neg (by rw [plain]; exact Bool.false_ne_true)] at reached
  cases reached
  rfl

/-- Over CoAP the split stands behind the encoding of the leading options. -/
theorem coveredLength_coap (udp : p.nextHeader = 17)
    (port : state.fields.containsField (.udp (.known .udpDevPort))) (coap : state.fields.hasCoap)
    (reached : coveredLength p state = .ok (some offset)) :
    ∃ u m boundary leading bytes, UdpDatagram.parse p.payload = .ok u ∧
      CoapMessage.parse u.payload = .ok m ∧ coapOptionBoundary state = some boundary ∧
      CoapMessage.fromParts m.version m.messageType m.code m.messageId m.token
        (m.options.take boundary) [] = .ok leading ∧
      leading.toVec = .ok bytes ∧ offset = 48 + bytes.length := by
  rw [coveredLength, if_pos ⟨udp, port⟩] at reached
  change (if state.fields.hasCoap then _ else Except.ok (some 48)) = _ at reached
  rw [if_pos coap, bind_eq_ok] at reached
  obtain ⟨u, parsed, reached⟩ := reached
  rw [bind_eq_ok] at reached
  obtain ⟨m, message, reached⟩ := reached
  have header := CoapMessage.header_of_parse message
  have long := header.long
  cases bounded : coapOptionBoundary state with
  | none =>
    rw [bounded] at reached
    cases reached
  | some boundary =>
    rw [bounded] at reached
    dsimp only at reached
    rw [bind_eq_ok] at reached
    obtain ⟨length, measured, reached⟩ := reached
    cases reached
    rw [coapPrefixLength, message, ok_bind, index_eq (by omega), ok_bind, ← header.messageType,
      bind_eq_ok] at measured
    obtain ⟨leading, made, measured⟩ := measured
    rw [bind_eq_ok] at measured
    obtain ⟨bytes, written, measured⟩ := measured
    cases measured
    exact ⟨u, m, boundary, leading, bytes, parsed, message, rfl, made, written, rfl⟩

theorem coveredLength_icmpv6 (icmpv6 : p.nextHeader = 58)
    (typed : state.fields.containsField (.icmpv6 (.known .icmpv6Type))) {m : Icmpv6Message}
    (parsed : Icmpv6Message.parse p.payload = .ok m)
    (reached : coveredLength p state = .ok (some offset)) : offset = 40 + m.payloadOffset := by
  have other : ¬ (p.nextHeader = 17 ∧ state.fields.containsField (.udp (.known .udpDevPort))) := by
    rintro ⟨udp, -⟩
    rw [icmpv6] at udp
    cases udp
  rw [coveredLength, if_neg other, if_pos ⟨icmpv6, typed⟩, parsed, ok_bind] at reached
  cases reached
  rfl

end

/- The condition. -/

/-- The queries that a UDP packet's headers answer. -/
def udpHeaders (scope : PacketScope) : List Query := ipv6Queries scope ++ udpQueries scope

/-- The embedded packet can be rebuilt: it is UDP without a payload, and its checksum is sent or
    the one that is computed. -/
structure CoversEmbedded (e : Ipv6Packet) (sent : FieldStore) : Prop where
  udp : e.nextHeader = 17
  headers : sent.covers (udpHeaders .embedded)
  empty : e.payload.length = 8
  summed : sent.containsFieldScope (.udp (.known .udpChecksum)) .embedded ∨ e.Checksummed

/-- No header is started and left incomplete: the IPv6 header and the headers above it, as far as
    the sender counts them among what the rule covers, have all their fields in the store. -/
inductive Covers (p : Ipv6Packet) (sent : FieldStore) : Prop
  | udp {u : UdpDatagram} : p.nextHeader = 17 → UdpDatagram.parse p.payload = .ok u →
      sent.hasCoap = false → sent.covers (udpHeaders .outer) → Covers p sent
  | coap {u : UdpDatagram} {m : CoapMessage} : p.nextHeader = 17 →
      UdpDatagram.parse p.payload = .ok u → CoapMessage.parse u.payload = .ok m →
      sent.covers (udpHeaders .outer ++ coapHeaderQueries m) → Covers p sent
  | icmpv6 {m : Icmpv6Message} : p.nextHeader = 58 → Icmpv6Message.parse p.payload = .ok m →
      isIcmpv6ErrorType m.messageType = false →
      sent.covers (ipv6Queries .outer ++ icmpv6Queries m.messageType) → Covers p sent
  | icmpv6Error {m : Icmpv6Message} {e : Ipv6Packet} : p.nextHeader = 58 →
      Icmpv6Message.parse p.payload = .ok m → isIcmpv6ErrorType m.messageType →
      sent.covers (ipv6Queries .outer ++ icmpv6Queries m.messageType) →
      Ipv6Packet.parse m.payload = .ok e →
      (e.nextHeader = 17 → ∃ u, UdpDatagram.parse e.payload = .ok u) →
      (sent.containsFieldScope (.ipv6 (.known .ipv6Version)) .embedded → CoversEmbedded e sent) →
      Covers p sent

/-- What the receiver rebuilds, from what it decoded and the suffix that it read. -/
def rebuildCarried (direction : Direction) (sent : FieldStore) (suffix : List UInt8) :
    Result (List UInt8) :=
  rebuild direction sent (if suffix = [] then none else some suffix)

/- Covered packets are rebuilt. -/

section
variable {p : Ipv6Packet} {direction : Direction} {sent : FieldStore} {suffix : List UInt8}

theorem outerU64_word {field : FieldRef} {width n : Nat} (stored : Stores sent .outer field width n)
    (narrow : width ≤ 64) (fits : n < 2 ^ width) : outerU64 sent field = .ok (some n) := by
  unfold Stores at stored
  simp only [outerU64, stored, toU64_word narrow fits, ok_bind]

/-- A stored ICMPv6 type is a number, whatever the packet is. -/
theorem Faithful.outerType (faithful : Faithful p direction sent) :
    ∃ messageType, outerU64 sent (.icmpv6 (.known .icmpv6Type)) = .ok messageType := by
  cases first : sent.firstByFieldScope (.icmpv6 (.known .icmpv6Type)) .outer with
  | none => exact ⟨none, by simp only [outerU64, first]⟩
  | some value =>
    obtain ⟨m, structured, -, extracted⟩ := (faithful.found rfl first).icmpv6
    have whole : FieldValue.fromU64 m.messageType.toNat 8 = .ok value := extracted
    rw [FieldValue.fromU64_eq (by decide) m.messageType.toNat_lt] at whole
    have stored : Stores sent .outer (.icmpv6 (.known .icmpv6Type)) 8 m.messageType.toNat := by
      rw [Stores, first, word, Except.ok.inj whole]
    exact ⟨_, outerU64_word stored (by decide) m.messageType.toNat_lt⟩

theorem Faithful.headerOnly_udp (faithful : Faithful p direction sent) (udp : p.nextHeader = 17)
    (header : Stores sent .outer (.ipv6 (.known .ipv6NextHeader)) 8 p.nextHeader.toNat) :
    headerOnlyIcmpError sent = .ok false := by
  obtain ⟨messageType, typed⟩ := faithful.outerType
  rw [headerOnlyIcmpError, outerU64_word header (by decide) p.nextHeader.toNat_lt, ok_bind, typed,
    ok_bind, udp]
  rfl

theorem valueIsIcmpError_eq : ∀ messageType : UInt8,
    valueIsIcmpError messageType.toNat = isIcmpv6ErrorType messageType := by
  apply forall_byte
  decide +kernel

theorem headerOnly_icmpv6 (silent : sent.hasExplicitPayload = false) (icmpv6 : p.nextHeader = 58)
    (header : Stores sent .outer (.ipv6 (.known .ipv6NextHeader)) 8 p.nextHeader.toNat)
    {m : Icmpv6Message}
    (typed : Stores sent .outer (.icmpv6 (.known .icmpv6Type)) 8 m.messageType.toNat) :
    headerOnlyIcmpError sent = .ok (isIcmpv6ErrorType m.messageType) := by
  have generic : sent.containsField .payload = false :=
    contains_of_silent silent (by simp [payloadFields])
  have own : sent.containsField (.icmpv6 (.known .icmpv6Payload)) = false :=
    contains_of_silent silent (by simp [payloadFields])
  rw [headerOnlyIcmpError, outerU64_word header (by decide) p.nextHeader.toNat_lt, ok_bind,
    outerU64_word typed (by decide) m.messageType.toNat_lt, ok_bind, generic, own, icmpv6,
    Option.any_some, valueIsIcmpError_eq]
  simp

theorem rebuildCarried_nil (direction : Direction) (sent : FieldStore) :
    rebuildCarried direction sent [] = reconstructPacket direction sent := rfl

theorem rebuildCarried_suffix (direction : Direction) (sent : FieldStore) (carried : suffix ≠ []) :
    rebuildCarried direction sent suffix = reconstructPacketWithSuffix direction sent suffix := by
  rw [rebuildCarried, if_neg carried]
  rfl

theorem Faithful.rebuilds_udp (faithful : Faithful p direction sent)
    (silent : sent.hasExplicitPayload = false) (udp : p.nextHeader = 17) {u : UdpDatagram}
    (parsed : UdpDatagram.parse p.payload = .ok u) (covered : sent.covers (udpHeaders .outer))
    {coap : List UInt8} (carried : carriedCoap sent .outer = .ok coap)
    (message : sent.containsFieldScope (.coap (.known .coapVersion)) .outer →
      ∃ m, CoapMessage.parse u.payload = .ok m) (split : coap ++ suffix = u.payload) :
    rebuildCarried direction sent suffix = .ok (p.recomputed sent .outer) := by
  have located := packetForScope_outer p
  rw [udpHeaders, covers_append] at covered
  obtain ⟨header, ports⟩ := covered
  have content : udpPayload sent .outer coap = .ok coap := udpPayload_silent silent coap
  by_cases none : suffix = []
  · subst none
    rw [List.append_nil] at split
    have content : udpPayload sent .outer coap = .ok u.payload := content.trans (by rw [split])
    have rebuilt := faithful.reconstructPacketAt_whole_udp located parsed udp header ports carried
      content 1
    change reconstructPacketAt packetDepth direction sent .outer = _ at rebuilt
    rw [rebuildCarried_nil, reconstructPacket, rebuilt, ok_bind,
      validate_recomputed (hasChecksum_udp udp parsed) (fun _ => ⟨u, parsed⟩)]
    rfl
  · have short : 8 + coap.length < 65536 := by
      have whole := udp_short parsed
      have length := u.length_payload
      rw [← split, List.length_append] at length
      omega
    have rebuilt := faithful.reconstructPacketAt_udp located parsed udp header ports carried
      content short 1
    change reconstructPacketAt packetDepth direction sent .outer = _ at rebuilt
    have stored := faithful.header located header
    rw [rebuildCarried_suffix direction sent none]
    apply reconstructPacketWithSuffix_udp udp parsed message
    rw [joinSuffix, faithful.headerOnly_udp udp stored.nextHeader, ok_bind,
      if_neg Bool.false_ne_true, rebuilt, ok_bind, p.withUpper_append, u.segment_append, split]

end

end SchcCore
