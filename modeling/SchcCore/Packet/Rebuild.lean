import SchcCore.Packet.Builder

/- When rebuilding a packet can fail to return. Every slice and copy stays inside its packet;
   what remains is the embedded packet of an ICMPv6 error, which is rebuilt inside itself
   without end when it is an ICMPv6 error with an embedded packet again. -/
namespace SchcCore
open Outcome Bytes BigEndian FieldStore

theorem safe_firstValueAt (fields : FieldStore) (field : FieldRef) (scope : PacketScope) :
    Safe (firstValueAt fields field scope) := by
  unfold firstValueAt
  split
  · exact safe_ok _
  · exact safe_invalidResidue _

theorem safe_narrowTo (limit : Nat) (reason : String) (value : FieldValue) :
    Safe (narrowTo limit reason value) :=
  safe_bind (FieldValue.safe_toU64 value) fun _ _ =>
    safe_ite (fun _ => safe_ok _) (fun _ => safe_invalidResidue _)

theorem safe_firstU8At (fields : FieldStore) (field : FieldRef) (scope : PacketScope) :
    Safe (firstU8At fields field scope) :=
  safe_bind (safe_firstValueAt fields field scope) fun _ _ => safe_narrowTo _ _ _

theorem safe_firstU16At (fields : FieldStore) (field : FieldRef) (scope : PacketScope) :
    Safe (firstU16At fields field scope) :=
  safe_bind (safe_firstValueAt fields field scope) fun _ _ => safe_narrowTo _ _ _

theorem safe_firstUsizeAt (fields : FieldStore) (field : FieldRef) (scope : PacketScope) :
    Safe (firstUsizeAt fields field scope) :=
  safe_bind (safe_firstValueAt fields field scope) fun _ _ => FieldValue.safe_toU64 _

theorem safe_sentOrCounted (sent : Option FieldValue) (sentReason : String) (counted : Nat)
    (countedReason : String) : Safe (sentOrCounted sent sentReason counted countedReason) := by
  cases sent with
  | some value => exact safe_narrowTo _ _ _
  | none => exact safe_ite (fun _ => safe_ok _) (fun _ => safe_invalidResidue _)

theorem safe_sentOrZero (sent : Option FieldValue) (reason : String) :
    Safe (sentOrZero sent reason) := by
  cases sent with
  | some value => exact safe_bind (safe_narrowTo _ _ _) fun _ _ => safe_ok _
  | none => exact safe_ok _

theorem safe_sharedPayload (fields : FieldStore) (scope : PacketScope) (field : FieldRef) :
    Safe (sharedPayload fields scope field) := by
  unfold sharedPayload
  split
  · exact safe_ite (fun _ => safe_invalidResidue _) (fun _ => safe_ok _)
  · exact safe_ok _
  · exact safe_ok _
  · exact safe_ok _

theorem safe_fieldU64 (field : FieldValue) : Safe (fieldU64 field) :=
  safe_ite (fun _ => safe_invalidResidue _) (fun _ => FieldValue.safe_toU64 _)

theorem safe_endpointAddress (fields : FieldStore) (scope : PacketScope)
    (prefixField iidField : FieldRef) :
    Safe (endpointAddress fields scope prefixField iidField) :=
  safe_bind (safe_firstValueAt _ _ _) fun _ _ => safe_bind (safe_firstValueAt _ _ _) fun _ _ =>
    safe_bind (safe_fieldU64 _) fun _ _ => safe_bind (safe_fieldU64 _) fun _ _ => safe_ok _

theorem safe_endpointAddresses (direction : Direction) (fields : FieldStore)
    (scope : PacketScope) : Safe (endpointAddresses direction fields scope) := by
  refine safe_bind (safe_endpointAddress _ _ _ _) fun _ _ => ?_
  refine safe_bind (safe_endpointAddress _ _ _ _) fun _ _ => ?_
  cases direction <;> exact safe_ok _

theorem safe_coapToken (fields : FieldStore) (scope : PacketScope) (tokenLen : Nat) :
    Safe (coapToken fields scope tokenLen) := by
  unfold coapToken
  split
  · exact safe_ite (fun _ => safe_invalidResidue _) fun _ =>
      safe_ite (fun _ => safe_invalidResidue _) fun _ => safe_ok _
  · exact safe_ite (fun _ => safe_ok _) (fun _ => safe_invalidResidue _)

theorem safe_coapOption_new (number : UInt32) (value : List UInt8) :
    Safe (CoapOption.new number value) :=
  safe_ite (fun _ => safe_packetError _ _) fun _ => safe_ite (fun _ => safe_packetError _ _)
    fun _ => safe_ok _

theorem safe_coapOptions (scope : PacketScope) (fields : FieldStore) :
    Safe (coapOptions scope fields) := by
  induction fields with
  | nil => exact safe_ok _
  | cons entry fields ih =>
    obtain ⟨key, value⟩ := entry
    unfold coapOptions
    split
    · refine safe_ite (fun _ => safe_ite (fun _ => ?_) fun _ => safe_invalidResidue _) fun _ => ih
      exact safe_bind (safe_coapOption_new _ _) fun _ _ => safe_bind ih fun _ _ => safe_ok _
    · exact ih

/-- Stored options have values that the encoder can write. -/
theorem coapOptions_lengths {scope : PacketScope} {fields : FieldStore} {options : List CoapOption}
    (made : coapOptions scope fields = .ok options) : ∀ o ∈ options, o.value.length ≤ 65804 := by
  induction fields generalizing options with
  | nil =>
    cases made
    simp
  | cons entry fields ih =>
    obtain ⟨key, value⟩ := entry
    unfold coapOptions at made
    split at made
    · split at made
      · split at made
        · simp only [bind_eq_ok] at made
          obtain ⟨option, new, later, rest, made⟩ := made
          cases made
          intro o member
          rcases List.mem_cons.mp member with rfl | member
          · exact (CoapMessage.option_new_length new).2
          · exact ih rest o member
        · simp at made
      · exact ih made
    · exact ih made

theorem safe_reconstructCoap (fields : FieldStore) (scope : PacketScope) :
    Safe (reconstructCoap fields scope) := by
  refine safe_bind (safe_firstU8At _ _ _) fun _ _ => safe_bind (safe_firstU8At _ _ _) fun _ _ =>
    safe_bind (safe_firstU8At _ _ _) fun _ _ => safe_bind (safe_firstU8At _ _ _) fun _ _ =>
    safe_bind (safe_firstU16At _ _ _) fun _ _ => safe_ite (fun _ => safe_invalidResidue _)
    fun _ => safe_bind (safe_coapToken _ _ _) fun _ _ => safe_bind (safe_coapOptions _ _)
    fun options made => safe_bind (safe_sharedPayload _ _ _) fun _ _ =>
    safe_bind (CoapMessage.safe_fromParts _ _ _ _ _ _ _) fun message built => ?_
  obtain ⟨bytes, written, -⟩ := CoapMessage.parse_of_fromParts (coapOptions_lengths made) built
  rw [written]
  exact safe_ok _

theorem safe_udpPayload (fields : FieldStore) (scope : PacketScope) (coap : List UInt8) :
    Safe (udpPayload fields scope coap) := by
  unfold udpPayload
  refine safe_ite (fun _ => safe_sharedPayload _ _ _) fun _ => ?_
  split
  · exact safe_ite (fun _ => safe_invalidResidue _) (fun _ => safe_ok _)
  · exact safe_ok _

theorem safe_reconstructUdp (direction : Direction) (fields : FieldStore) (scope : PacketScope) :
    Safe (reconstructUdp direction fields scope) := by
  have carried : Safe (carriedCoap fields scope) :=
    safe_ite (fun _ => safe_reconstructCoap _ _) (fun _ => safe_ok _)
  exact safe_bind carried fun _ _ => safe_bind (safe_firstU16At _ _ _) fun _ _ =>
    safe_bind (safe_firstU16At _ _ _) fun _ _ => safe_bind (safe_udpPayload _ _ _) fun _ _ =>
    safe_bind (safe_sentOrCounted _ _ _ _) fun _ _ => safe_bind (safe_sentOrZero _ _) fun _ _ =>
    safe_ok _

theorem safe_icmpv6TypeWord (fields : FieldStore) (scope : PacketScope) (messageType : UInt8) :
    Safe (icmpv6TypeWord fields scope messageType) := by
  unfold icmpv6TypeWord
  split
  · split
    · exact safe_ok _
    · exact safe_invalidResidue _
  · split
    · exact safe_ok _
    · exact safe_invalidResidue _

theorem safe_echoWords (fields : FieldStore) (scope : PacketScope) (messageType : UInt8) :
    Safe (echoWords fields scope messageType) :=
  safe_ite (fun _ => safe_bind (safe_firstU16At _ _ _) fun _ _ =>
    safe_bind (safe_firstU16At _ _ _) fun _ _ => safe_ok _) (fun _ => safe_ok _)

theorem safe_withChecksum (source destination : List UInt8) (nextHeader : UInt8)
    (upper : List UInt8) (computeChecksum : Bool) :
    Safe (withChecksum source destination nextHeader upper computeChecksum) := by
  refine safe_ite (fun _ => ?_) (fun _ => safe_ok _)
  unfold checksumRange
  split
  · rw [ok_bind, copyInto_eq (by simp; omega)]
    exact safe_ok _
  · split
    · rw [ok_bind, copyInto_eq (by simp; omega)]
      exact safe_ok _
    · exact safe_invalidResidue _

theorem safe_reconstructIpv6WithUpper (direction : Direction) (fields : FieldStore)
    (scope : PacketScope) (nextHeader : UInt8) (upper : List UInt8) (computeChecksum : Bool) :
    Safe (reconstructIpv6WithUpper direction fields scope nextHeader upper computeChecksum) :=
  safe_bind (safe_firstU8At _ _ _) fun _ _ => safe_bind (safe_firstU8At _ _ _) fun _ _ =>
    safe_bind (safe_firstUsizeAt _ _ _) fun _ _ => safe_bind (safe_firstU8At _ _ _) fun _ _ =>
    safe_bind (safe_sentOrCounted _ _ _ _) fun _ _ =>
    safe_bind (safe_endpointAddresses _ _ _) fun _ _ =>
    safe_ite (fun _ => safe_invalidResidue _) fun _ =>
    safe_bind (safe_withChecksum _ _ _ _ _) fun _ _ => safe_ok _

/- The embedded packet. -/

/-- The second word of an ICMPv6 error is stored and has its 32 bits. -/
def typeWordReady (fields : FieldStore) (scope : PacketScope) (messageType : UInt8) : Bool :=
  match icmpv6TypeWord fields scope messageType with
  | .ok word => word.bitLen = 32 && word.bytes.length = 4
  | .error _ => false

/-- Whether rebuilding the packet of a scope goes on to rebuild the embedded one: the scope
    holds the header of an ICMPv6 error and the store an embedded IPv6 version. -/
def entersEmbedded (fields : FieldStore) (scope : PacketScope) : Bool :=
  firstU8At fields (.ipv6 (.known .ipv6NextHeader)) scope = .ok 58 &&
    (match firstU8At fields (.icmpv6 (.known .icmpv6Type)) scope with
      | .ok messageType => isIcmpv6ErrorType (UInt8.ofNat messageType) &&
          typeWordReady fields scope (UInt8.ofNat messageType)
      | .error _ => false) &&
    (firstU8At fields (.icmpv6 (.known .icmpv6Code)) scope).isOk &&
    (sentOrZero (fields.firstByFieldScope (.icmpv6 (.known .icmpv6Checksum)) scope)
      "sent ICMPv6 checksum does not fit u16").isOk &&
    fields.containsFieldScope (.ipv6 (.known .ipv6Version)) .embedded

/-- The upper segment of a scope, given the rebuilt embedded packet: its next header, its bytes
    and whether its checksum is to be computed. -/
def segmentAt (inner : Result (List UInt8)) (direction : Direction) (fields : FieldStore)
    (scope : PacketScope) : Result (UInt8 × List UInt8 × Bool) := do
  let nextHeader ← firstU8At fields (.ipv6 (.known .ipv6NextHeader)) scope
  if nextHeader = 17 then do
    let (upper, computeChecksum) ← reconstructUdp direction fields scope
    .ok (17, upper, computeChecksum)
  else if nextHeader = 58 then do
    let (upper, computeChecksum) ← reconstructIcmpv6 inner fields scope
    .ok (58, upper, computeChecksum)
  else invalidResidue s!"unsupported IPv6 next header {nextHeader}"

/-- One level of `reconstruct_packet_at`, given the rebuilt embedded packet. -/
def rebuildAt (inner : Result (List UInt8)) (direction : Direction) (fields : FieldStore)
    (scope : PacketScope) : Result (List UInt8) := do
  let nextHeader ← firstU8At fields (.ipv6 (.known .ipv6NextHeader)) scope
  if nextHeader = 17 then do
    let (upper, computeChecksum) ← reconstructUdp direction fields scope
    reconstructIpv6WithUpper direction fields scope 17 upper computeChecksum
  else if nextHeader = 58 then do
    let (upper, computeChecksum) ← reconstructIcmpv6 inner fields scope
    reconstructIpv6WithUpper direction fields scope 58 upper computeChecksum
  else invalidResidue s!"unsupported IPv6 next header {nextHeader}"

theorem rebuildAt_eq (inner : Result (List UInt8)) (direction : Direction) (fields : FieldStore)
    (scope : PacketScope) :
    rebuildAt inner direction fields scope =
      (segmentAt inner direction fields scope >>= fun made =>
        reconstructIpv6WithUpper direction fields scope made.1 made.2.1 made.2.2) := by
  unfold rebuildAt segmentAt
  cases firstU8At fields (.ipv6 (.known .ipv6NextHeader)) scope with
  | error halt => rfl
  | ok nextHeader =>
    simp only [ok_bind]
    split
    · cases reconstructUdp direction fields scope <;> rfl
    · split
      · cases reconstructIcmpv6 inner fields scope <;> rfl
      · rfl

theorem reconstructPacketAt_succ (depth : Nat) (direction : Direction) (fields : FieldStore)
    (scope : PacketScope) :
    reconstructPacketAt (depth + 1) direction fields scope =
      rebuildAt (reconstructPacketAt depth (reverseDirection direction) fields .embedded)
        direction fields scope := rfl

theorem safe_icmpv6ErrorBody {inner : Result (List UInt8)} (safe : Safe inner)
    (fields : FieldStore) (scope : PacketScope) : Safe (icmpv6ErrorBody inner fields scope) := by
  unfold icmpv6ErrorBody
  refine safe_ite (fun _ => safe_bind safe fun _ _ => ?_) fun _ =>
    safe_ite (fun _ => safe_sharedPayload _ _ _) (fun _ => safe_invalidResidue _)
  split
  · exact safe_ite (fun _ => safe_invalidResidue _) (fun _ => safe_ok _)
  · exact safe_ok _

theorem safe_reconstructIcmpv6 {inner : Result (List UInt8)} (safe : Safe inner)
    (fields : FieldStore) (scope : PacketScope) : Safe (reconstructIcmpv6 inner fields scope) :=
  safe_bind (safe_firstU8At _ _ _) fun _ _ => safe_bind (safe_firstU8At _ _ _) fun _ _ =>
    safe_bind (safe_sentOrZero _ _) fun _ _ => safe_ite
      (fun _ => safe_bind (safe_icmpv6TypeWord _ _ _) fun _ _ =>
        safe_ite (fun _ => safe_invalidResidue _) fun _ =>
          safe_bind (safe_icmpv6ErrorBody safe _ _) fun _ _ => safe_ok _)
      (fun _ => safe_bind (safe_sharedPayload _ _ _) fun _ _ =>
        safe_bind (safe_echoWords _ _ _) fun _ _ => safe_ok _)

theorem safe_rebuildAt {inner : Result (List UInt8)} (safe : Safe inner) (direction : Direction)
    (fields : FieldStore) (scope : PacketScope) : Safe (rebuildAt inner direction fields scope) :=
  safe_bind (safe_firstU8At _ _ _) fun _ _ => safe_ite
    (fun _ => safe_bind (safe_reconstructUdp _ _ _) fun _ _ =>
      safe_reconstructIpv6WithUpper _ _ _ _ _ _)
    (fun _ => safe_ite
      (fun _ => safe_bind (safe_reconstructIcmpv6 safe _ _) fun _ _ =>
        safe_reconstructIpv6WithUpper _ _ _ _ _ _)
      (fun _ => safe_invalidResidue _))

/-- A scope that does not enter the embedded packet makes nothing of it. -/
theorem segmentAt_skips {fields : FieldStore} {scope : PacketScope}
    (skips : entersEmbedded fields scope = false) (direction : Direction)
    (inner other : Result (List UInt8)) :
    segmentAt inner direction fields scope = segmentAt other direction fields scope := by
  refine bind_congr_ok fun nextHeader icmp => ?_
  by_cases udp : nextHeader = 17
  · simp only [udp, ↓reduceIte]
  by_cases other58 : nextHeader = 58
  · subst other58
    simp only [udp, ↓reduceIte]
    congr 1
    refine bind_congr_ok fun messageType typed => bind_congr_ok fun code coded =>
      bind_congr_ok fun checksum summed => ?_
    by_cases isError : isIcmpv6ErrorType (UInt8.ofNat messageType)
    · simp only [isError, ↓reduceIte]
      refine bind_congr_ok fun word worded => ?_
      by_cases wide : word.bitLen ≠ 32 ∨ word.bytes.length ≠ 4
      · simp only [wide, ↓reduceIte]
      · have absent : fields.containsFieldScope (.ipv6 (.known .ipv6Version)) .embedded = false := by
          have ready : typeWordReady fields scope (UInt8.ofNat messageType) = true := by
            simp only [typeWordReady, worded]
            simp only [not_or, not_not] at wide
            simp [wide]
          simpa [entersEmbedded, icmp, typed, coded, summed, isError, ready,
            Except.isOk, Except.toBool] using skips
        simp only [wide, ↓reduceIte, icmpv6ErrorBody, absent, Bool.false_eq_true]
    · simp only [isError, Bool.false_eq_true, ↓reduceIte]
  · simp only [udp, other58, ↓reduceIte]

theorem rebuildAt_skips {fields : FieldStore} {scope : PacketScope}
    (skips : entersEmbedded fields scope = false) (direction : Direction)
    (inner other : Result (List UInt8)) :
    rebuildAt inner direction fields scope = rebuildAt other direction fields scope := by
  rw [rebuildAt_eq, rebuildAt_eq, segmentAt_skips skips direction inner other]

/-- A scope that enters an embedded packet without end has no end itself. -/
theorem segmentAt_enters {fields : FieldStore} {scope : PacketScope}
    (enters : entersEmbedded fields scope) (direction : Direction) (site : PanicSite) :
    segmentAt (panicAt site) direction fields scope = panicAt site := by
  simp only [entersEmbedded, Bool.and_eq_true, decide_eq_true_eq] at enters
  obtain ⟨⟨⟨⟨icmp, typed⟩, coded⟩, summed⟩, present⟩ := enters
  split at typed
  · rename_i messageType typeRead
    simp only [Bool.and_eq_true, typeWordReady] at typed
    obtain ⟨isError, ready⟩ := typed
    split at ready
    · rename_i word wordRead
      simp only [Bool.and_eq_true, decide_eq_true_eq] at ready
      obtain ⟨code, codeRead⟩ : ∃ code,
          firstU8At fields (.icmpv6 (.known .icmpv6Code)) scope = .ok code := by
        cases read : firstU8At fields (.icmpv6 (.known .icmpv6Code)) scope with
        | ok code => exact ⟨code, rfl⟩
        | error halt => simp [read, Except.isOk, Except.toBool] at coded
      obtain ⟨checksum, checksumRead⟩ : ∃ checksum,
          sentOrZero (fields.firstByFieldScope (.icmpv6 (.known .icmpv6Checksum)) scope)
            "sent ICMPv6 checksum does not fit u16" = .ok checksum := by
        cases read : sentOrZero (fields.firstByFieldScope (.icmpv6 (.known .icmpv6Checksum)) scope)
            "sent ICMPv6 checksum does not fit u16" with
        | ok checksum => exact ⟨checksum, rfl⟩
        | error halt => simp [read, Except.isOk, Except.toBool] at summed
      have narrow : ¬ (word.bitLen ≠ 32 ∨ word.bytes.length ≠ 4) := by simp [ready]
      have seventeen : ¬ (58 : Nat) = 17 := by decide
      have endless : reconstructIcmpv6 (panicAt site) fields scope = panicAt site := by
        simp only [reconstructIcmpv6, typeRead, codeRead, checksumRead, ok_bind, isError,
          ↓reduceIte, wordRead, narrow, icmpv6ErrorBody, present]
        rfl
      simp only [segmentAt, icmp, ok_bind, seventeen, ↓reduceIte, endless]
      rfl
    · simp at ready
  · simp at typed

theorem rebuildAt_enters {fields : FieldStore} {scope : PacketScope}
    (enters : entersEmbedded fields scope) (direction : Direction) (site : PanicSite) :
    rebuildAt (panicAt site) direction fields scope = panicAt site := by
  rw [rebuildAt_eq, segmentAt_enters enters]
  rfl

/-- An ICMPv6 error with an embedded packet inside another one. -/
def nestsErrors (fields : FieldStore) : Bool :=
  entersEmbedded fields .outer && entersEmbedded fields .embedded

theorem embedded_overflows {fields : FieldStore} (enters : entersEmbedded fields .embedded)
    (depth : Nat) (direction : Direction) :
    reconstructPacketAt depth direction fields .embedded = panicAt .stackOverflow := by
  induction depth generalizing direction with
  | zero => rfl
  | succ depth ih => rw [reconstructPacketAt_succ, ih, rebuildAt_enters enters]

theorem embedded_returns {fields : FieldStore} (skips : entersEmbedded fields .embedded = false)
    (depth : Nat) (direction : Direction) :
    Safe (reconstructPacketAt (depth + 1) direction fields .embedded) := by
  rw [reconstructPacketAt_succ, rebuildAt_skips skips direction _ (.ok [])]
  exact safe_rebuildAt (safe_ok _) _ _ _

/-- The outer packet overflows the stack exactly when errors nest, however deep it is. -/
theorem outer_overflows {fields : FieldStore} (nests : nestsErrors fields) (depth : Nat)
    (direction : Direction) :
    reconstructPacketAt depth direction fields .outer = panicAt .stackOverflow := by
  rw [nestsErrors, Bool.and_eq_true] at nests
  cases depth with
  | zero => rfl
  | succ depth =>
    rw [reconstructPacketAt_succ, embedded_overflows nests.2, rebuildAt_enters nests.1]

theorem outer_returns {fields : FieldStore} (flat : nestsErrors fields = false) (depth : Nat)
    (direction : Direction) :
    Safe (reconstructPacketAt (depth + 2) direction fields .outer) := by
  rw [reconstructPacketAt_succ]
  rw [nestsErrors, Bool.and_eq_false_iff] at flat
  rcases flat with skips | skips
  · rw [rebuildAt_skips skips direction _ (.ok [])]
    exact safe_rebuildAt (safe_ok _) _ _ _
  · exact safe_rebuildAt (embedded_returns skips depth _) _ _ _

/-- Two levels of nesting are enough: more of them change nothing. -/
theorem reconstructPacketAt_depth (fields : FieldStore) (depth : Nat) (direction : Direction) :
    reconstructPacketAt (packetDepth + depth) direction fields .outer =
      reconstructPacketAt packetDepth direction fields .outer := by
  rw [packetDepth, Nat.add_comm]
  by_cases nests : nestsErrors fields
  · rw [outer_overflows nests, outer_overflows nests]
  · rw [nestsErrors, Bool.and_eq_true, not_and_or, Bool.not_eq_true, Bool.not_eq_true] at nests
    rw [reconstructPacketAt_succ, reconstructPacketAt_succ]
    rcases nests with skips | skips
    · exact rebuildAt_skips skips direction _ _
    · rw [reconstructPacketAt_succ, reconstructPacketAt_succ, rebuildAt_skips skips]

theorem safe_reconstructPacket {fields : FieldStore} (flat : nestsErrors fields = false)
    (direction : Direction) : Safe (reconstructPacket direction fields) :=
  safe_bind (outer_returns flat 0 direction) fun _ _ =>
    safe_bind (safe_validatePacketLengths _) fun _ _ => safe_ok _

/- The carried suffix. -/

theorem safe_outerU64 (fields : FieldStore) (field : FieldRef) : Safe (outerU64 fields field) := by
  unfold outerU64
  split
  · exact safe_bind (FieldValue.safe_toU64 _) fun _ _ => safe_ok _
  · exact safe_ok _

theorem safe_headerOnlyIcmpError (fields : FieldStore) : Safe (headerOnlyIcmpError fields) :=
  safe_bind (safe_outerU64 _ _) fun _ _ => safe_bind (safe_outerU64 _ _) fun _ _ => safe_ok _

theorem safe_validateEmbeddedIpv6Suffix (suffix : List UInt8) :
    Safe (validateEmbeddedIpv6Suffix suffix) :=
  safe_bind (Ipv6Packet.safe_parse _) fun _ _ => safe_ite
    (fun _ => safe_bind (UdpDatagram.safe_parse _) fun _ _ => safe_ok _) (fun _ => safe_ok _)

/-- Storing a payload leaves every other field as it is. -/
theorem firstByFieldScope_insert {fields : FieldStore} {key : FieldKey} {field : FieldRef}
    (other : key.field ≠ field) (value : FieldValue) (scope : PacketScope) :
    (fields.insert key value).firstByFieldScope field scope =
      fields.firstByFieldScope field scope := by
  simp [FieldStore.insert, firstByFieldScope, List.findSome?_append, other]

theorem entersEmbedded_insert {key : FieldKey} (payload : key.field = .payload)
    (fields : FieldStore) (value : FieldValue) (scope : PacketScope) :
    entersEmbedded (fields.insert key value) scope = entersEmbedded fields scope := by
  have kept : ∀ field, field ≠ .payload → ∀ scope,
      (fields.insert key value).firstByFieldScope field scope =
        fields.firstByFieldScope field scope := by
    intro field differs scope
    exact firstByFieldScope_insert (by rw [payload]; exact differs.symm) value scope
  have word : ∀ messageType, icmpv6TypeWord (fields.insert key value) scope messageType =
      icmpv6TypeWord fields scope messageType := by
    intro messageType
    simp only [icmpv6TypeWord, kept .unused (by simp), kept (.icmpv6 _) (by simp)]
  have number : ∀ field, field ≠ .payload →
      firstU8At (fields.insert key value) field scope = firstU8At fields field scope := by
    intro field differs
    simp only [firstU8At, firstValueAt, kept field differs]
  have ready : ∀ messageType, typeWordReady (fields.insert key value) scope messageType =
      typeWordReady fields scope messageType := by
    intro messageType
    simp only [typeWordReady, word]
  rw [entersEmbedded, entersEmbedded, number _ (by simp), number _ (by simp), number _ (by simp),
    containsFieldScope, containsFieldScope, kept _ (by simp), kept _ (by simp)]
  simp only [ready]

/-- Whether rebuilding with what follows the residue overflows the stack. A suffix that is to
    become an error's payload is checked first. -/
def rebuildOverflows (fields : FieldStore) : Option (List UInt8) → Bool
  | none => nestsErrors fields
  | some suffix => nestsErrors fields &&
      (headerOnlyIcmpError fields ≠ .ok true || validateEmbeddedIpv6Suffix suffix = .ok ())

theorem outerU64_of_firstU8At {fields : FieldStore} {field : FieldRef} {n : Nat}
    (read : firstU8At fields field .outer = .ok n) : ∃ value, outerU64 fields field = .ok value := by
  simp only [firstU8At, firstValueAt, bind_eq_ok, narrowTo] at read
  obtain ⟨value, found, m, number, -⟩ := read
  split at found
  · rename_i stored present
    cases found
    exact ⟨some m, by simp [outerU64, present, number]⟩
  · simp at found

/-- Where errors nest, the kind of the outer message is known. -/
theorem headerOnlyIcmpError_of_enters {fields : FieldStore} (enters : entersEmbedded fields .outer) :
    ∃ verdict, headerOnlyIcmpError fields = .ok verdict := by
  simp only [entersEmbedded, Bool.and_eq_true, decide_eq_true_eq] at enters
  obtain ⟨⟨⟨⟨icmp, typed⟩, -⟩, -⟩, -⟩ := enters
  split at typed
  · rename_i messageType typeRead
    obtain ⟨nextHeader, first⟩ := outerU64_of_firstU8At icmp
    obtain ⟨kind, second⟩ := outerU64_of_firstU8At typeRead
    exact ⟨_, by rw [headerOnlyIcmpError, first, ok_bind, second, ok_bind]⟩
  · simp at typed

theorem joinSuffix_overflows {fields : FieldStore} {suffix : List UInt8}
    (overflows : rebuildOverflows fields (some suffix)) (direction : Direction) :
    joinSuffix direction fields suffix = panicAt .stackOverflow := by
  simp only [rebuildOverflows, Bool.and_eq_true, Bool.or_eq_true, decide_eq_true_eq] at overflows
  obtain ⟨nests, checked⟩ := overflows
  have enters : entersEmbedded fields .outer := by
    rw [nestsErrors, Bool.and_eq_true] at nests
    exact nests.1
  obtain ⟨verdict, known⟩ := headerOnlyIcmpError_of_enters enters
  cases verdict with
  | false =>
    simp only [joinSuffix, known, ok_bind, Bool.false_eq_true, ↓reduceIte, outer_overflows nests]
    rfl
  | true =>
    have valid : validateEmbeddedIpv6Suffix suffix = .ok () := by
      rcases checked with other | valid
      · exact absurd known other
      · exact valid
    have inner : ∀ value, nestsErrors (fields.insert ⟨.payload, 1, 0, .outer⟩ value) := by
      intro value
      rw [nestsErrors, entersEmbedded_insert rfl, entersEmbedded_insert rfl]
      exact nests
    have whole := FieldValue.fromBytes_whole suffix
    rw [Nat.mul_comm] at whole
    simp only [joinSuffix, known, ok_bind, ↓reduceIte, valid, whole, outer_overflows (inner _)]

theorem safe_joinSuffix {fields : FieldStore} {suffix : List UInt8}
    (returns : rebuildOverflows fields (some suffix) = false) (direction : Direction) :
    Safe (joinSuffix direction fields suffix) := by
  refine safe_bind (safe_headerOnlyIcmpError fields) fun verdict known => ?_
  refine safe_ite (fun injects => ?_) fun appends => ?_
  · refine safe_bind (safe_validateEmbeddedIpv6Suffix suffix) fun _ valid => ?_
    refine safe_bind (FieldValue.safe_fromBytes _ _) fun value _ => ?_
    refine outer_returns ?_ 0 direction
    rw [nestsErrors, entersEmbedded_insert rfl, entersEmbedded_insert rfl]
    simpa [rebuildOverflows, valid, nestsErrors] using returns
  · refine safe_bind (outer_returns ?_ 0 direction) fun _ _ => safe_ok _
    simpa [rebuildOverflows, known, appends] using returns

theorem length_of_patchLength {fields : FieldStore} {field : FieldRef} {start : Nat}
    {reason : String} {packet patched : List UInt8}
    (done : patchLength fields field start reason packet = .ok patched) :
    patched.length = packet.length := by
  unfold patchLength copyInto at done
  split at done
  · cases done
    rfl
  · split at done
    · split at done
      · cases done
        exact length_overwrite ‹_›
      · simp at done
    · simp at done

theorem safe_patchLength (fields : FieldStore) (field : FieldRef) {start : Nat} (reason : String)
    {packet : List UInt8} (inside : start + 2 ≤ packet.length) :
    Safe (patchLength fields field start reason packet) := by
  refine safe_ite (fun _ => safe_ok _) fun _ => safe_ite (fun _ => ?_) fun _ => safe_invalidResidue _
  rw [copyInto_eq (by simpa using inside)]
  exact safe_ok _

/-- Inside a packet the checksum is patched in place. -/
theorem patchChecksum_eq (fields : FieldStore) (field : FieldRef) {start : Nat}
    (nextHeader : UInt8) {packet : List UInt8} (below : 40 ≤ start)
    (inside : start + 2 ≤ packet.length) :
    patchChecksum fields field start nextHeader packet =
      .ok (if fields.containsFieldScope field .outer then packet
        else overwrite (overwrite packet start [0, 0]) start
          (toBytes 2 (transportChecksum (cut packet 8 24) (cut packet 24 40) nextHeader
            ((overwrite packet start [0, 0]).drop 40)))) := by
  unfold patchChecksum
  split
  · rfl
  · have zeroed : (overwrite packet start [0, 0]).length = packet.length :=
      length_overwrite (by simpa using inside)
    rw [slice_eq (by omega) (by omega), ok_bind, slice_eq (by omega) (by omega), ok_bind,
      copyInto_eq (by simpa using inside), ok_bind, slice_eq (by omega) (Nat.le_refl _), ok_bind,
      copyInto_eq (by rw [zeroed]; simpa using inside), cut_to_end]

theorem length_patchedChecksum (fields : FieldStore) (field : FieldRef) {start : Nat}
    {packet : List UInt8} (checksum : Nat) (inside : start + 2 ≤ packet.length) :
    (if fields.containsFieldScope field .outer then packet
      else overwrite (overwrite packet start [0, 0]) start (toBytes 2 checksum)).length =
      packet.length := by
  split
  · rfl
  · have zeroed : (overwrite packet start [0, 0]).length = packet.length :=
      length_overwrite (by simpa using inside)
    rw [length_overwrite (by rw [zeroed]; simpa using inside), zeroed]

theorem safe_patchUdp (fields : FieldStore) (packet : List UInt8) : Safe (patchUdp fields packet) := by
  unfold patchUdp
  refine safe_ite (fun _ => safe_invalidResidue _) fun long => ?_
  refine safe_bind (safe_patchLength _ _ _ (by omega)) fun patched done => ?_
  have same := length_of_patchLength done
  rw [patchChecksum_eq _ _ _ (by omega) (by omega), ok_bind]
  refine safe_ite (fun _ => ?_) fun _ => safe_ok _
  rw [slice_eq (by rw [length_patchedChecksum _ _ _ (by omega)]; omega) (Nat.le_refl _), ok_bind]
  exact safe_bind (CoapMessage.safe_parse _) fun _ _ => safe_ok _

theorem safe_patchIcmpv6 (fields : FieldStore) (packet : List UInt8) :
    Safe (patchIcmpv6 fields packet) := by
  unfold patchIcmpv6
  refine safe_ite (fun _ => safe_invalidResidue _) fun long => ?_
  rw [patchChecksum_eq _ _ _ (by omega) (by omega), ok_bind,
    slice_eq (by rw [length_patchedChecksum _ _ _ (by omega)]; omega) (Nat.le_refl _), ok_bind]
  exact safe_bind (Icmpv6Message.safe_parse _) fun _ _ => safe_ok _

theorem safe_patchUpper (fields : FieldStore) (nextHeader : UInt8) (packet : List UInt8) :
    Safe (patchUpper fields nextHeader packet) :=
  safe_ite (fun _ => safe_patchUdp _ _) fun _ =>
    safe_ite (fun _ => safe_patchIcmpv6 _ _) fun _ => safe_ok _

theorem safe_reconstructPacketWithSuffix {direction : Direction} {fields : FieldStore}
    {suffix : List UInt8} (joined : Safe (joinSuffix direction fields suffix)) :
    Safe (reconstructPacketWithSuffix direction fields suffix) := by
  refine safe_bind joined fun packet _ => safe_ite (fun _ => safe_invalidResidue _) fun long => ?_
  rw [index_eq (by omega), ok_bind]
  refine safe_bind (safe_patchLength _ _ _ (by omega)) fun _ _ => ?_
  exact safe_bind (safe_patchUpper _ _ _) fun _ _ =>
    safe_bind (safe_validatePacketLengths _) fun _ _ => safe_ok _

end SchcCore
