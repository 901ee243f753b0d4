import SchcCore.Packet.Entries

/- The packet that the entries of a store describe: when it is rebuilt, how long its upper layer
   is, and, of an embedded packet, its bytes. -/
namespace SchcCore
open Outcome Bytes BigEndian BitList FieldStore

def storedNextHeader (fields : FieldStore) (scope : PacketScope) : UInt8 :=
  UInt8.ofNat (fields.number (.ipv6 (.known .ipv6NextHeader)) scope)

/-- The upper layer of a packet that carries no other: UDP, or ICMPv6 that is no error. -/
structure PlainReady (fields : FieldStore) (scope : PacketScope) : Prop where
  nextHeader : fields.Holds (.ipv6 (.known .ipv6NextHeader)) scope 256
  segment : (storedNextHeader fields scope = 17 ∧ UdpReady fields scope) ∨
    (storedNextHeader fields scope = 58 ∧ OrdinaryReady fields scope)

def plainSize (fields : FieldStore) (scope : PacketScope) : Nat :=
  if storedNextHeader fields scope = 17 then udpSize fields scope else ordinarySize fields scope

/-- That upper layer, before its checksum is computed. -/
def PlainSegment (direction : Direction) (fields : FieldStore) (scope : PacketScope)
    (segment : List UInt8) : Prop :=
  if storedNextHeader fields scope = 17 then
    ∃ payload, UdpPayload fields scope payload ∧
      describedUdp direction fields scope payload = segment
  else describedOrdinary fields scope = segment

/-- The checksum of a scope is stored. -/
def checksumStored (fields : FieldStore) (scope : PacketScope) : Bool :=
  fields.containsFieldScope
    (if storedNextHeader fields scope = 17 then .udp (.known .udpChecksum)
      else .icmpv6 (.known .icmpv6Checksum)) scope

/-- A segment with the checksum of its scope: as stored, or over itself. -/
def summedSegment (direction : Direction) (fields : FieldStore) (scope : PacketScope)
    (segment : List UInt8) : List UInt8 :=
  if checksumStored fields scope then segment
  else overwrite segment (checksumStart (storedNextHeader fields scope)) (toBytes 2
    (transportChecksum (describedAddresses direction fields scope).1
      (describedAddresses direction fields scope).2 (storedNextHeader fields scope) segment))

/-- A packet that carries no other, as the entries of a scope describe it. -/
structure PlainPacket (direction : Direction) (fields : FieldStore) (scope : PacketScope)
    (packet : List UInt8) : Prop where
  ready : PlainReady fields scope
  header : HeaderReady fields scope (plainSize fields scope)
  bytes : ∃ segment, PlainSegment direction fields scope segment ∧
    describedHeader direction fields scope (storedNextHeader fields scope) segment ++
      summedSegment direction fields scope segment = packet

/-- The error that the outer packet is, and what it carries: the embedded packet, of which a
    stored payload is a copy, or that payload. -/
structure CarrierReady (direction : Direction) (fields : FieldStore) : Prop where
  nextHeader : fields.Holds (.ipv6 (.known .ipv6NextHeader)) .outer 256
  icmpv6 : storedNextHeader fields .outer = 58
  error : ErrorReady fields .outer
  body : if fields.containsFieldScope (.ipv6 (.known .ipv6Version)) .embedded then
      ∃ packet, PlainPacket (reverseDirection direction) fields .embedded packet ∧
        (fields.containsFieldScope .payload .outer = true →
          fields.content .payload .outer = packet)
    else fields.containsFieldScope .payload .outer = true

def carrierSize (fields : FieldStore) : Nat :=
  8 + if fields.containsFieldScope (.ipv6 (.known .ipv6Version)) .embedded then
    40 + plainSize fields .embedded else (fields.content .payload .outer).length

def isCarrier (fields : FieldStore) : Bool :=
  storedNextHeader fields .outer = 58 && isIcmpv6ErrorType (storedType fields .outer)

/-- The bytes of the outer upper layer. -/
def segmentSize (fields : FieldStore) : Nat :=
  if isCarrier fields then carrierSize fields else plainSize fields .outer

def SegmentReady (direction : Direction) (fields : FieldStore) : Prop :=
  PlainReady fields .outer ∨ CarrierReady direction fields

section
variable {direction : Direction} {fields : FieldStore} {scope : PacketScope}

theorem plainSegment_udp (udp : storedNextHeader fields scope = 17) {segment : List UInt8} :
    PlainSegment direction fields scope segment ↔ ∃ payload, UdpPayload fields scope payload ∧
      describedUdp direction fields scope payload = segment := by
  rw [PlainSegment, if_pos udp]

theorem plainSegment_icmpv6 (icmpv6 : storedNextHeader fields scope = 58) {segment : List UInt8} :
    PlainSegment direction fields scope segment ↔ describedOrdinary fields scope = segment := by
  rw [PlainSegment, icmpv6, if_neg (by decide)]

theorem PlainSegment.size {segment : List UInt8}
    (described : PlainSegment direction fields scope segment) :
    segment.length = plainSize fields scope := by
  unfold PlainSegment at described
  unfold plainSize
  split at described
  · rename_i udp
    obtain ⟨payload, carried, rfl⟩ := described
    rw [if_pos udp, length_describedUdp carried]
  · rename_i icmpv6
    rw [if_neg icmpv6, ← described, length_describedOrdinary]

theorem storedNextHeader_eq (holds : fields.Holds (.ipv6 (.known .ipv6NextHeader)) scope 256)
    {n : Nat} (small : n < 256) :
    storedNextHeader fields scope = UInt8.ofNat n ↔
      fields.number (.ipv6 (.known .ipv6NextHeader)) scope = n := by
  have bound := holds.lt
  rw [storedNextHeader, ← UInt8.toNat_inj]
  simp
  omega

/-- The upper layer of a scope, in terms of its entries and of the packet inside. -/
theorem segmentAt_eq_ok {inner : Result (List UInt8)} {made : UInt8 × List UInt8 × Bool} :
    segmentAt inner direction fields scope = .ok made ↔
      fields.Holds (.ipv6 (.known .ipv6NextHeader)) scope 256 ∧
      ((storedNextHeader fields scope = 17 ∧
          ∃ found, reconstructUdp direction fields scope = .ok found ∧ (17, found) = made) ∨
        (storedNextHeader fields scope = 58 ∧
          ∃ found, reconstructIcmpv6 inner fields scope = .ok found ∧ (58, found) = made)) := by
  simp only [segmentAt, bind_eq_ok, firstU8At_eq_ok]
  constructor
  · rintro ⟨_, ⟨holds, rfl⟩, done⟩
    refine ⟨holds, ?_⟩
    split at done
    · rename_i udp
      rw [bind_eq_ok] at done
      obtain ⟨found, written, done⟩ := done
      cases done
      exact .inl ⟨(storedNextHeader_eq holds (by decide)).mpr udp, found, written, rfl⟩
    · split at done
      · rename_i icmpv6
        rw [bind_eq_ok] at done
        obtain ⟨found, written, done⟩ := done
        cases done
        exact .inr ⟨(storedNextHeader_eq holds (by decide)).mpr icmpv6, found, written, rfl⟩
      · simp at done
  · rintro ⟨holds, ⟨udp, found, written, rfl⟩ | ⟨icmpv6, found, written, rfl⟩⟩
    · have number := (storedNextHeader_eq (n := 17) holds (by decide)).mp udp
      refine ⟨_, ⟨holds, rfl⟩, ?_⟩
      rw [if_pos number, written]
      rfl
    · have number := (storedNextHeader_eq (n := 58) holds (by decide)).mp icmpv6
      refine ⟨_, ⟨holds, rfl⟩, ?_⟩
      rw [number, if_neg (by decide), if_pos rfl, written]
      rfl

/-- The upper layer of a scope is plain, or an error around what it carries. -/
theorem segmentAt_cases {inner : Result (List UInt8)} {made : UInt8 × List UInt8 × Bool} :
    segmentAt inner direction fields scope = .ok made ↔
      (PlainReady fields scope ∧ ∃ segment, PlainSegment direction fields scope segment ∧
        (storedNextHeader fields scope, segment, !checksumStored fields scope) = made) ∨
      ((fields.Holds (.ipv6 (.known .ipv6NextHeader)) scope 256 ∧
          storedNextHeader fields scope = 58 ∧ ErrorReady fields scope) ∧
        ∃ body, icmpv6ErrorBody inner fields scope = .ok body ∧
          (storedNextHeader fields scope, describedMessage fields scope
            (fields.content (typeWordField (storedType fields scope)) scope ++ body),
            !checksumStored fields scope) = made) := by
  have other : ¬ (58 : UInt8) = 17 := by decide
  rw [segmentAt_eq_ok]
  simp only [reconstructUdp_eq_ok, reconstructIcmpv6_eq_ok]
  constructor
  · rintro ⟨holds, ⟨udp, found, ⟨ready, payload, carried, rfl⟩, rfl⟩ |
      ⟨icmpv6, found, ⟨ready, rfl⟩ | ⟨ready, body, carried, rfl⟩, rfl⟩⟩
    · refine .inl ⟨⟨holds, .inl ⟨udp, ready⟩⟩, _,
        (plainSegment_udp udp).mpr ⟨payload, carried, rfl⟩, ?_⟩
      rw [checksumStored, udp, if_pos rfl]
    · refine .inl ⟨⟨holds, .inr ⟨icmpv6, ready⟩⟩, _, (plainSegment_icmpv6 icmpv6).mpr rfl, ?_⟩
      rw [checksumStored, icmpv6, if_neg other]
    · refine .inr ⟨⟨holds, icmpv6, ready⟩, body, carried, ?_⟩
      rw [checksumStored, icmpv6, if_neg other]
  · rintro (⟨⟨holds, segment⟩, bytes, described, rfl⟩ | ⟨⟨holds, icmpv6, ready⟩, body, carried, rfl⟩)
    · rcases segment with ⟨udp, ready⟩ | ⟨icmpv6, ready⟩
      · obtain ⟨payload, carried, rfl⟩ := (plainSegment_udp udp).mp described
        refine ⟨holds, .inl ⟨udp, _, ⟨ready, payload, carried, rfl⟩, ?_⟩⟩
        rw [checksumStored, udp, if_pos rfl]
      · have same := (plainSegment_icmpv6 icmpv6).mp described
        refine ⟨holds, .inr ⟨icmpv6, _, .inl ⟨ready, rfl⟩, ?_⟩⟩
        rw [checksumStored, icmpv6, if_neg other, same]
    · refine ⟨holds, .inr ⟨icmpv6, _, .inr ⟨ready, body, carried, rfl⟩, ?_⟩⟩
      rw [checksumStored, icmpv6, if_neg other]

/-- A segment with room for its checksum gets it where it is not stored. -/
theorem withChecksum_eq_ok {segment filled : List UInt8}
    (room : (storedNextHeader fields scope = 17 ∧ 8 ≤ segment.length) ∨
      (storedNextHeader fields scope = 58 ∧ 4 ≤ segment.length)) :
    withChecksum (describedAddresses direction fields scope).1
        (describedAddresses direction fields scope).2 (storedNextHeader fields scope) segment
        (!checksumStored fields scope) = .ok filled ↔
      summedSegment direction fields scope segment = filled := by
  have found : checksumRange (storedNextHeader fields scope) segment =
      .ok (checksumStart (storedNextHeader fields scope)) := by
    rcases room with ⟨udp, long⟩ | ⟨icmpv6, long⟩
    · rw [udp, checksumRange, if_pos ⟨rfl, long⟩]
      rfl
    · rw [icmpv6, checksumRange, if_neg (by simp), if_pos ⟨rfl, long⟩]
      rfl
  have inside : ∀ sum, checksumStart (storedNextHeader fields scope) + (toBytes 2 sum).length ≤
      segment.length := by
    intro sum
    rw [length_toBytes]
    exact (checksumRange_ok found).2
  unfold withChecksum summedSegment
  cases checksumStored fields scope with
  | true => simp
  | false =>
    simp only [Bool.not_false, ↓reduceIte, Bool.false_eq_true, found, ok_bind,
      copyInto_eq (inside _), Except.ok.injEq]

theorem PlainReady.room (ready : PlainReady fields scope) {segment : List UInt8}
    (described : PlainSegment direction fields scope segment) :
    (storedNextHeader fields scope = 17 ∧ 8 ≤ segment.length) ∨
      (storedNextHeader fields scope = 58 ∧ 4 ≤ segment.length) := by
  have size := described.size
  unfold plainSize at size
  rcases ready.segment with ⟨udp, -⟩ | ⟨icmpv6, -⟩
  · rw [if_pos udp, udpSize] at size
    exact .inl ⟨udp, by omega⟩
  · rw [icmpv6, if_neg (by decide), ordinarySize] at size
    exact .inr ⟨icmpv6, by omega⟩

/-- A described segment exists where the entries are ready. -/
theorem PlainReady.described (ready : PlainReady fields scope) (direction : Direction) :
    ∃ segment, PlainSegment direction fields scope segment := by
  rcases ready.segment with ⟨udp, datagram⟩ | ⟨icmpv6, -⟩
  · have payload : ∃ payload, UdpPayload fields scope payload := by
      unfold UdpPayload
      split
      · rename_i carried
        exact (datagram.coap carried).written
      · exact ⟨_, rfl⟩
    obtain ⟨payload, carried⟩ := payload
    exact ⟨_, (plainSegment_udp udp).mpr ⟨payload, carried, rfl⟩⟩
  · exact ⟨_, (plainSegment_icmpv6 icmpv6).mpr rfl⟩

/-- The embedded packet is rebuilt exactly when its entries are ready, and to what they describe:
    in order it is no error, for an error would be rebuilt inside itself. -/
theorem embedded_eq_ok {packet : List UInt8} :
    reconstructPacketAt 1 direction fields .embedded = .ok packet ↔
      PlainPacket direction fields .embedded packet := by
  rw [reconstructPacketAt_succ, rebuildAt_eq, bind_eq_ok]
  simp only [segmentAt_cases, reconstructIpv6WithUpper_eq_ok]
  constructor
  · rintro ⟨_, ⟨ready, segment, described, rfl⟩ | ⟨-, body, carried, rfl⟩, header, filled, summed, made⟩
    · rw [described.size] at header
      exact ⟨ready, header, segment, described, by
        rw [(withChecksum_eq_ok (ready.room described)).mp summed]
        exact made⟩
    · obtain ⟨version, stored, -⟩ := header.version
      rw [icmpv6ErrorBody_eq_ok, if_pos (by rw [containsFieldScope, stored]; rfl)] at carried
      cases carried.1
  · rintro ⟨ready, header, segment, described, made⟩
    rw [← described.size] at header
    exact ⟨_, .inl ⟨ready, segment, described, rfl⟩, header, _,
      (withChecksum_eq_ok (ready.room described)).mpr rfl, made⟩

theorem length_describedHeader (nextHeader : UInt8) (segment : List UInt8) :
    (describedHeader direction fields scope nextHeader segment).length = 40 := by
  cases direction <;>
    simp [describedHeader, describedAddresses, deviceAddress, applicationAddress]

theorem length_summedSegment {segment : List UInt8}
    (room : (storedNextHeader fields scope = 17 ∧ 8 ≤ segment.length) ∨
      (storedNextHeader fields scope = 58 ∧ 4 ≤ segment.length)) :
    (summedSegment direction fields scope segment).length = segment.length := by
  unfold summedSegment
  split
  · rfl
  · refine length_overwrite ?_
    rw [length_toBytes, checksumStart]
    rcases room with ⟨udp, long⟩ | ⟨icmpv6, long⟩
    · rw [if_pos udp]
      omega
    · rw [icmpv6, if_neg (by decide)]
      omega

theorem PlainPacket.length {packet : List UInt8}
    (described : PlainPacket direction fields scope packet) :
    packet.length = 40 + plainSize fields scope := by
  obtain ⟨segment, made, rfl⟩ := described.bytes
  rw [List.length_append, length_describedHeader, length_summedSegment (described.ready.room made),
    made.size]

theorem length_carried (body : List UInt8) (ready : ErrorReady fields scope) :
    (describedMessage fields scope
      (fields.content (typeWordField (storedType fields scope)) scope ++ body)).length =
      8 + body.length := by
  obtain ⟨word, stored, wide⟩ := ready.word
  have size := word.size
  simp only [describedMessage, content_of_stored stored, List.length_append, length_toBytes,
    List.length_cons, List.length_nil]
  omega

/-- What the outer upper layer is: as long as its entries say, for the next header that is stored,
    its checksum to be computed where none is. -/
structure OuterSegment (fields : FieldStore) (made : UInt8 × List UInt8 × Bool) : Prop where
  nextHeader : made.1 = storedNextHeader fields .outer
  size : made.2.1.length = segmentSize fields
  computes : made.2.2 = !checksumStored fields .outer
  room : (storedNextHeader fields .outer = 17 ∧ 8 ≤ made.2.1.length) ∨
    (storedNextHeader fields .outer = 58 ∧ 4 ≤ made.2.1.length)

theorem PlainReady.not_carrier (ready : PlainReady fields .outer) : isCarrier fields = false := by
  rcases ready.segment with ⟨udp, -⟩ | ⟨-, message⟩
  · simp [isCarrier, udp]
  · simp [isCarrier, message.ordinary]

theorem CarrierReady.carrier (ready : CarrierReady direction fields) : isCarrier fields = true := by
  simp [isCarrier, ready.icmpv6, ready.error.error]

/-- The upper layer of the outer packet is found exactly when its entries are ready. -/
theorem outerSegment_ready {made : UInt8 × List UInt8 × Bool}
    (found : segmentAt (reconstructPacketAt 1 (reverseDirection direction) fields .embedded) direction
      fields .outer = .ok made) :
    SegmentReady direction fields ∧ OuterSegment fields made := by
  rcases segmentAt_cases.mp found with ⟨ready, segment, described, rfl⟩ |
    ⟨⟨holds, icmpv6, error⟩, body, carried, rfl⟩
  · refine ⟨.inl ready, rfl, ?_, rfl, ready.room described⟩
    rw [segmentSize, ready.not_carrier]
    exact described.size
  · rw [icmpv6ErrorBody_eq_ok] at carried
    have ready : CarrierReady direction fields ∧ 8 + body.length = carrierSize fields := by
      unfold carrierSize
      split at carried
      · rename_i embedded
        have described := embedded_eq_ok.mp carried.1
        rw [if_pos embedded, described.length]
        refine ⟨⟨holds, icmpv6, error, ?_⟩, rfl⟩
        rw [if_pos embedded]
        exact ⟨body, described, carried.2⟩
      · rename_i whole
        rw [if_neg whole, carried.2]
        refine ⟨⟨holds, icmpv6, error, ?_⟩, rfl⟩
        rw [if_neg whole]
        exact carried.1
    have size := length_carried body error
    refine ⟨.inr ready.1, rfl, ?_, rfl, .inr ⟨icmpv6, ?_⟩⟩
    · rw [segmentSize, ready.1.carrier, if_pos rfl, ← ready.2]
      exact size
    · rw [size]
      omega

theorem SegmentReady.found (ready : SegmentReady direction fields) :
    ∃ made, segmentAt (reconstructPacketAt 1 (reverseDirection direction) fields .embedded) direction
      fields .outer = .ok made := by
  rcases ready with plain | carrier
  · obtain ⟨segment, described⟩ := plain.described direction
    exact ⟨_, segmentAt_cases.mpr (.inl ⟨plain, segment, described, rfl⟩)⟩
  · have body : ∃ body, icmpv6ErrorBody
        (reconstructPacketAt 1 (reverseDirection direction) fields .embedded) fields .outer =
          .ok body := by
      simp only [icmpv6ErrorBody_eq_ok]
      have ready := carrier.body
      split at ready
      · rename_i embedded
        obtain ⟨packet, described, copy⟩ := ready
        refine ⟨packet, ?_⟩
        rw [if_pos embedded]
        exact ⟨embedded_eq_ok.mpr described, copy⟩
      · rename_i whole
        refine ⟨fields.content .payload .outer, ?_⟩
        rw [if_neg whole]
        exact ⟨ready, rfl⟩
    obtain ⟨body, carried⟩ := body
    exact ⟨_, segmentAt_cases.mpr
      (.inr ⟨⟨carrier.nextHeader, carrier.icmpv6, carrier.error⟩, body, carried, rfl⟩)⟩

/-- The outer packet is rebuilt exactly when the entries of its upper layer and of its header are
    ready, and then as long as they say. -/
theorem outer_eq_ok_iff :
    (∃ packet, reconstructPacketAt packetDepth direction fields .outer = .ok packet) ↔
      SegmentReady direction fields ∧ HeaderReady fields .outer (segmentSize fields) := by
  rw [packetDepth, reconstructPacketAt_succ, rebuildAt_eq]
  simp only [bind_eq_ok, reconstructIpv6WithUpper_eq_ok]
  constructor
  · rintro ⟨packet, made, found, header, -⟩
    obtain ⟨ready, segment⟩ := outerSegment_ready found
    rw [segment.size] at header
    exact ⟨ready, header⟩
  · rintro ⟨ready, header⟩
    obtain ⟨⟨nextHeader, upper, computes⟩, found⟩ := ready.found
    obtain ⟨-, segment⟩ := outerSegment_ready found
    rw [← segment.size] at header
    obtain ⟨rfl, -, rfl, room⟩ := segment
    exact ⟨_, _, found, header, _, (withChecksum_eq_ok room).mpr rfl, rfl⟩

theorem outer_described {packet : List UInt8}
    (rebuilt : reconstructPacketAt packetDepth direction fields .outer = .ok packet) :
    packet.length = 40 + segmentSize fields ∧ byteAt packet 6 = storedNextHeader fields .outer := by
  rw [packetDepth, reconstructPacketAt_succ, rebuildAt_eq, bind_eq_ok] at rebuilt
  obtain ⟨⟨nextHeader, upper, computes⟩, found, done⟩ := rebuilt
  obtain ⟨-, segment⟩ := outerSegment_ready found
  obtain ⟨_, _, _, -, -, -, headed⟩ := reconstructIpv6WithUpper_headed done
  obtain ⟨-, filled, summed, made⟩ := reconstructIpv6WithUpper_eq_ok.mp done
  obtain ⟨rfl, size, rfl, room⟩ := segment
  refine ⟨?_, headed.nextHeader⟩
  rw [← made, ← (withChecksum_eq_ok room).mp summed, List.length_append, length_describedHeader,
    length_summedSegment room, ← size]

end

end SchcCore
