import SchcCore.Packet.Rebuild

/- What a rebuilt packet is: an IPv6 header over UDP or ICMPv6 whose computed checksum holds
   after the last change to the packet, whichever route rebuilt it. -/
namespace SchcCore
open Outcome Bytes BigEndian FieldStore OnesComplement

/-- The one's-complement sum of the pseudo-header and the whole upper-layer segment. -/
def segmentSum (packet : List UInt8) : Nat :=
  fold (wordSum (pseudoHeader (cut packet 8 24) (cut packet 24 40) (byteAt packet 6)
    (packet.drop 40).length ++ packet.drop 40))

def checksumField (nextHeader : UInt8) : FieldRef :=
  if nextHeader = 17 then .udp (.known .udpChecksum) else .icmpv6 (.known .icmpv6Checksum)

/-- Where the checksum stands in the upper-layer segment. -/
def checksumStart (nextHeader : UInt8) : Nat := if nextHeader = 17 then 6 else 2

/-- A packet with an IPv6 header over UDP or ICMPv6; lengths are not yet judged. -/
structure Ipv6Shape (packet : List UInt8) : Prop where
  long : 40 ≤ packet.length
  version : byteAt packet 0 >>> 4 = 6
  upper : byteAt packet 6 = 17 ∨ byteAt packet 6 = 58

/-- Version, traffic class and flow label in four bytes. -/
theorem firstWord_eq {trafficClass flowLabel : Nat} (narrow : trafficClass < 256)
    (label : flowLabel ≤ 0x000fffff) :
    toBytes 4 ((6 <<< 28) ||| (trafficClass <<< 20) ||| flowLabel) =
      [UInt8.ofNat (96 + trafficClass / 16),
        UInt8.ofNat (trafficClass % 16 * 16 + flowLabel / 65536),
        UInt8.ofNat (flowLabel / 256), UInt8.ofNat flowLabel] := by
  have first : trafficClass <<< 20 < 2 ^ 28 := by
    rw [Nat.shiftLeft_eq]
    omega
  have joined : (6 <<< 28) ||| (trafficClass <<< 20) = (6 * 256 + trafficClass) <<< 20 := by
    rw [← Nat.shiftLeft_add_eq_or_of_lt first]
    simp only [Nat.shiftLeft_eq]
    omega
  have second : flowLabel < 2 ^ 20 := by omega
  rw [joined, ← Nat.shiftLeft_add_eq_or_of_lt second, Nat.shiftLeft_eq]
  have byte : ∀ a b : Nat, a % 256 = b % 256 → UInt8.ofNat a = UInt8.ofNat b := by
    intro a b same
    apply UInt8.toNat_inj.mp
    simpa using same
  simp only [toBytes, List.cons.injEq, and_true]
  exact ⟨byte _ _ (by omega), byte _ _ (by omega), byte _ _ (by omega), byte _ _ (by omega)⟩

theorem version_byte {trafficClass : Nat} (narrow : trafficClass < 256) :
    UInt8.ofNat (96 + trafficClass / 16) >>> 4 = 6 := by
  apply UInt8.toNat_inj.mp
  rw [UInt8.toNat_shiftRight, UInt8.toNat_ofNat', Nat.mod_eq_of_lt (by omega),
    Nat.shiftRight_eq_div_pow]
  change (96 + trafficClass / 16) / 2 ^ 4 = 6
  omega

theorem firstU8At_lt {fields : FieldStore} {field : FieldRef} {scope : PacketScope} {n : Nat}
    (read : firstU8At fields field scope = .ok n) : n < 256 := by
  simp only [firstU8At, narrowTo, bind_eq_ok] at read
  obtain ⟨_, -, m, -, fits⟩ := read
  split at fits
  · cases fits
    assumption
  · simp at fits

theorem length_endpointAddress {fields : FieldStore} {scope : PacketScope}
    {prefixField iidField : FieldRef} {address : List UInt8}
    (made : endpointAddress fields scope prefixField iidField = .ok address) :
    address.length = 16 := by
  simp only [endpointAddress, bind_eq_ok] at made
  obtain ⟨_, -, _, -, _, -, _, -, made⟩ := made
  cases made
  simp

theorem length_endpointAddresses {direction : Direction} {fields : FieldStore}
    {scope : PacketScope} {source destination : List UInt8}
    (made : endpointAddresses direction fields scope = .ok (source, destination)) :
    source.length = 16 ∧ destination.length = 16 := by
  simp only [endpointAddresses, bind_eq_ok] at made
  obtain ⟨device, first, application, second, made⟩ := made
  have device := length_endpointAddress first
  have application := length_endpointAddress second
  cases direction with
  | up =>
    cases made
    exact ⟨device, application⟩
  | down =>
    cases made
    exact ⟨application, device⟩

/-- The upper layer behind a header of forty bytes with the version, the next header and the
    addresses in their places. -/
structure Headed (nextHeader : UInt8) (source destination upper packet : List UInt8) : Prop where
  length : packet.length = 40 + upper.length
  version : byteAt packet 0 >>> 4 = 6
  nextHeader : byteAt packet 6 = nextHeader
  source : cut packet 8 24 = source
  destination : cut packet 24 40 = destination
  upper : packet.drop 40 = upper

theorem reconstructIpv6WithUpper_headed {direction : Direction} {fields : FieldStore}
    {scope : PacketScope} {nextHeader : UInt8} {upper packet : List UInt8} {computeChecksum : Bool}
    (done : reconstructIpv6WithUpper direction fields scope nextHeader upper computeChecksum =
      .ok packet) :
    ∃ source destination filled, source.length = 16 ∧ destination.length = 16 ∧
      withChecksum source destination nextHeader upper computeChecksum = .ok filled ∧
      Headed nextHeader source destination filled packet := by
  simp only [reconstructIpv6WithUpper, bind_eq_ok] at done
  obtain ⟨version, -, trafficClass, classRead, flowLabel, -, hopLimit, -, payloadLen, -,
    ⟨source, destination⟩, addressed, done⟩ := done
  obtain ⟨sourceLength, destinationLength⟩ := length_endpointAddresses addressed
  split at done
  · simp at done
  · rename_i ranges
    rw [bind_eq_ok] at done
    obtain ⟨filled, summed, done⟩ := done
    have six : version = 6 := by
      by_contra other
      exact ranges (.inl other)
    have label : flowLabel ≤ 0x000fffff := by
      by_contra large
      exact ranges (.inr (by omega))
    subst six
    have narrow := firstU8At_lt classRead
    refine ⟨source, destination, filled, sourceLength, destinationLength, summed, ?_⟩
    rw [firstWord_eq narrow label] at done
    obtain ⟨a, b, payload⟩ : ∃ a b, toBytes 2 payloadLen = [a, b] := ⟨_, _, rfl⟩
    rw [payload] at done
    cases done
    constructor
    · simp [sourceLength, destinationLength]
      omega
    · exact version_byte narrow
    · rfl
    · simp [cut, sourceLength]
    · simp [cut, sourceLength, destinationLength, List.take_append]
    · simp [sourceLength, destinationLength, List.drop_append]

theorem Headed.shape {nextHeader : UInt8} {source destination upper packet : List UInt8}
    (headed : Headed nextHeader source destination upper packet)
    (known : nextHeader = 17 ∨ nextHeader = 58) : Ipv6Shape packet := by
  refine ⟨by rw [headed.length]; omega, headed.version, ?_⟩
  rwa [headed.nextHeader]

/-- A segment whose zeroed checksum word was filled in sums to all ones. -/
theorem Headed.segmentSum {nextHeader : UInt8} {source destination upper packet : List UInt8}
    {start : Nat} (headed : Headed nextHeader source destination
      (overwrite upper start (toBytes 2 (transportChecksum source destination nextHeader upper)))
      packet) (sourceLength : source.length = 16) (destinationLength : destination.length = 16)
    (short : upper.length ≤ 65535) (even : start % 2 = 0) (inside : start + 2 ≤ upper.length)
    (zero : cut upper start (start + 2) = [0, 0]) : segmentSum packet = 65535 := by
  have size : (overwrite upper start
      (toBytes 2 (transportChecksum source destination nextHeader upper))).length = upper.length :=
    length_overwrite (by simpa using inside)
  rw [SchcCore.segmentSum, headed.source, headed.destination, headed.nextHeader, headed.upper, size]
  exact fold_filled_checksum nextHeader sourceLength destinationLength short even inside zero

theorem checksumStart_even (nextHeader : UInt8) : checksumStart nextHeader % 2 = 0 := by
  unfold checksumStart
  split <;> rfl

/-- Computing the checksum of the packet again changes nothing. -/
structure Resummed (packet : List UInt8) : Prop where
  room : 40 + checksumStart (byteAt packet 6) + 2 ≤ packet.length
  kept : overwrite packet (40 + checksumStart (byteAt packet 6)) (toBytes 2 (transportChecksum
    (cut packet 8 24) (cut packet 24 40) (byteAt packet 6)
    (overwrite (packet.drop 40) (checksumStart (byteAt packet 6)) [0, 0]))) = packet

theorem Headed.resummed {nextHeader : UInt8} {source destination upper packet : List UInt8}
    (headed : Headed nextHeader source destination
      (overwrite upper (checksumStart nextHeader)
        (toBytes 2 (transportChecksum source destination nextHeader upper))) packet)
    (inside : checksumStart nextHeader + 2 ≤ upper.length)
    (zero : cut upper (checksumStart nextHeader) (checksumStart nextHeader + 2) = [0, 0]) :
    Resummed packet := by
  have size : (overwrite upper (checksumStart nextHeader)
      (toBytes 2 (transportChecksum source destination nextHeader upper))).length = upper.length :=
    length_overwrite (by simpa using inside)
  have length := headed.length
  have zeroed : overwrite (packet.drop 40) (checksumStart nextHeader) [0, 0] = upper := by
    rw [headed.upper, overwrite_overwrite (by simp) (by simpa using inside), ← zero,
      overwrite_self upper (by omega) inside]
  have filled : cut packet (40 + checksumStart nextHeader) (40 + checksumStart nextHeader + 2) =
      toBytes 2 (transportChecksum source destination nextHeader upper) := by
    rw [Nat.add_assoc, ← cut_drop, headed.upper]
    exact cut_overwrite_same (by simpa using inside)
  constructor
  · rw [headed.nextHeader]
    omega
  · rw [headed.nextHeader, headed.source, headed.destination, zeroed, ← filled]
    exact overwrite_self packet (by omega) (by omega)

theorem Resummed.segmentSum {packet : List UInt8} (resummed : Resummed packet)
    (shape : Ipv6Shape packet) (short : packet.length ≤ 40 + 65535) : segmentSum packet = 65535 := by
  have room := resummed.room
  have kept := congrArg (List.drop 40) resummed.kept
  rw [drop_overwrite_before (by omega) (by omega), Nat.add_sub_cancel_left] at kept
  have inside : checksumStart (byteAt packet 6) + ([0, 0] : List UInt8).length ≤
      (packet.drop 40).length := by
    simp only [List.length_drop, List.length_cons, List.length_nil]
    omega
  have zeroed := length_overwrite inside
  rw [List.length_drop] at zeroed
  have headed : Headed (byteAt packet 6) (cut packet 8 24) (cut packet 24 40)
      (overwrite (overwrite (packet.drop 40) (checksumStart (byteAt packet 6)) [0, 0])
        (checksumStart (byteAt packet 6)) (toBytes 2 (transportChecksum (cut packet 8 24)
          (cut packet 24 40) (byteAt packet 6)
          (overwrite (packet.drop 40) (checksumStart (byteAt packet 6)) [0, 0])))) packet := by
    rw [overwrite_overwrite (by simp) inside, kept]
    refine ⟨?_, shape.version, rfl, rfl, rfl, rfl⟩
    rw [List.length_drop]
    omega
  exact headed.segmentSum (length_cut (by omega)) (length_cut (by omega)) (by omega)
    (checksumStart_even _) (by omega) (cut_overwrite_same inside)

theorem checksumRange_ok {nextHeader : UInt8} {upper : List UInt8} {start : Nat}
    (found : checksumRange nextHeader upper = .ok start) :
    start = checksumStart nextHeader ∧ start + 2 ≤ upper.length := by
  unfold checksumRange at found
  split at found
  · rename_i udp
    cases found
    exact ⟨by simp [checksumStart, udp.1], udp.2⟩
  · split at found
    · rename_i icmp
      cases found
      exact ⟨by simp [checksumStart, icmp.1], icmp.2⟩
    · simp at found

/-- What a rebuilt upper layer leaves open: the checksum is computed exactly when the store has
    none, and stands at zero until then. -/
structure Unsummed (fields : FieldStore) (scope : PacketScope) (nextHeader : UInt8)
    (upper : List UInt8) (computeChecksum : Bool) : Prop where
  computed : fields.containsFieldScope (checksumField nextHeader) scope = false →
    computeChecksum = true
  zero : computeChecksum = true →
    cut upper (checksumStart nextHeader) (checksumStart nextHeader + 2) = [0, 0]

theorem sentOrZero_ok {sent : Option FieldValue} {reason : String} {checksum : Nat} {compute : Bool}
    (done : sentOrZero sent reason = .ok (checksum, compute)) :
    (sent = none → compute = true) ∧ (compute = true → checksum = 0) := by
  cases sent with
  | none =>
    cases done
    exact ⟨fun _ => rfl, fun _ => rfl⟩
  | some value =>
    simp only [sentOrZero, bind_eq_ok] at done
    obtain ⟨_, -, done⟩ := done
    cases done
    simp

theorem reconstructUdp_unsummed {direction : Direction} {fields : FieldStore} {scope : PacketScope}
    {upper : List UInt8} {compute : Bool}
    (done : reconstructUdp direction fields scope = .ok (upper, compute)) :
    Unsummed fields scope 17 upper compute := by
  simp only [reconstructUdp, bind_eq_ok] at done
  obtain ⟨_, -, devPort, -, appPort, -, payload, -, length, -, ⟨checksum, verdict⟩, sent, done⟩ := done
  obtain ⟨absent, zero⟩ := sentOrZero_ok sent
  cases direction with
  | up =>
    cases done
    refine ⟨fun none => absent (by simpa [containsFieldScope, checksumField] using none), ?_⟩
    intro computes
    rw [zero computes]
    simp [cut, checksumStart, toBytes]
  | down =>
    cases done
    refine ⟨fun none => absent (by simpa [containsFieldScope, checksumField] using none), ?_⟩
    intro computes
    rw [zero computes]
    simp [cut, checksumStart, toBytes]

theorem reconstructIcmpv6_unsummed {inner : Result (List UInt8)} {fields : FieldStore}
    {scope : PacketScope} {upper : List UInt8} {compute : Bool}
    (done : reconstructIcmpv6 inner fields scope = .ok (upper, compute)) :
    Unsummed fields scope 58 upper compute := by
  simp only [reconstructIcmpv6, bind_eq_ok] at done
  obtain ⟨messageType, -, code, -, ⟨checksum, verdict⟩, sent, done⟩ := done
  obtain ⟨absent, zero⟩ := sentOrZero_ok sent
  have open' : ∀ rest, Unsummed fields scope 58
      ([UInt8.ofNat messageType, UInt8.ofNat code] ++ toBytes 2 checksum ++ rest) verdict := by
    intro rest
    refine ⟨fun none => absent (by simpa [containsFieldScope, checksumField] using none), ?_⟩
    intro computes
    rw [zero computes]
    simp [cut, checksumStart, toBytes]
  split at done
  · rw [bind_eq_ok] at done
    obtain ⟨word, -, done⟩ := done
    split at done
    · simp at done
    · rw [bind_eq_ok] at done
      obtain ⟨body, -, done⟩ := done
      cases done
      rw [List.append_assoc]
      exact open' _
  · simp only [bind_eq_ok] at done
    obtain ⟨payload, -, words, -, done⟩ := done
    cases done
    rw [List.append_assoc]
    exact open' _

/-- A rebuilt packet is well shaped, and has the computed checksum when none was sent. -/
structure Consistent (fields : FieldStore) (scope : PacketScope) (packet : List UInt8) : Prop where
  shape : Ipv6Shape packet
  resummed : fields.containsFieldScope (checksumField (byteAt packet 6)) scope = false →
    Resummed packet

theorem Consistent.summed {fields : FieldStore} {scope : PacketScope} {packet : List UInt8}
    (consistent : Consistent fields scope packet) (short : packet.length ≤ 40 + 65535)
    (absent : fields.containsFieldScope (checksumField (byteAt packet 6)) scope = false) :
    segmentSum packet = 65535 :=
  (consistent.resummed absent).segmentSum consistent.shape short

theorem reconstructIpv6WithUpper_consistent {direction : Direction} {fields : FieldStore}
    {scope : PacketScope} {nextHeader : UInt8} {upper packet : List UInt8} {compute : Bool}
    (known : nextHeader = 17 ∨ nextHeader = 58)
    (unsummed : Unsummed fields scope nextHeader upper compute)
    (done : reconstructIpv6WithUpper direction fields scope nextHeader upper compute = .ok packet) :
    Consistent fields scope packet := by
  obtain ⟨source, destination, filled, -, -, summed, headed⟩ := reconstructIpv6WithUpper_headed done
  refine ⟨headed.shape known, fun absent => ?_⟩
  rw [headed.nextHeader] at absent
  have computes := unsummed.computed absent
  subst computes
  simp only [withChecksum, ↓reduceIte, bind_eq_ok] at summed
  obtain ⟨start, found, copied⟩ := summed
  obtain ⟨rfl, inside⟩ := checksumRange_ok found
  rw [copyInto_eq (by simpa using inside)] at copied
  cases copied
  exact headed.resummed inside (unsummed.zero rfl)

theorem reconstructPacketAt_consistent {depth : Nat} {direction : Direction} {fields : FieldStore}
    {scope : PacketScope} {packet : List UInt8}
    (done : reconstructPacketAt depth direction fields scope = .ok packet) :
    Consistent fields scope packet := by
  cases depth with
  | zero => simp [reconstructPacketAt] at done
  | succ depth =>
    simp only [reconstructPacketAt, bind_eq_ok] at done
    obtain ⟨nextHeader, -, done⟩ := done
    split at done
    · rw [bind_eq_ok] at done
      obtain ⟨⟨upper, compute⟩, rebuilt, done⟩ := done
      exact reconstructIpv6WithUpper_consistent (.inl rfl) (reconstructUdp_unsummed rebuilt) done
    · split at done
      · rw [bind_eq_ok] at done
        obtain ⟨⟨upper, compute⟩, rebuilt, done⟩ := done
        exact reconstructIpv6WithUpper_consistent (.inr rfl) (reconstructIcmpv6_unsummed rebuilt) done
      · simp at done

/- The suffix route: lengths and the checksum are patched in the joined packet. -/

theorem Ipv6Shape.overwrite {packet new : List UInt8} {start : Nat} (shape : Ipv6Shape packet)
    (inside : start + new.length ≤ packet.length)
    (apart : 7 ≤ start ∨ (1 ≤ start ∧ start + new.length ≤ 6)) :
    Ipv6Shape (overwrite packet start new) ∧
      byteAt (Bytes.overwrite packet start new) 6 = byteAt packet 6 := by
  have first : byteAt (Bytes.overwrite packet start new) 0 = byteAt packet 0 :=
    byteAt_overwrite_outside inside (by omega)
  have sixth : byteAt (Bytes.overwrite packet start new) 6 = byteAt packet 6 :=
    byteAt_overwrite_outside inside (by omega)
  refine ⟨⟨?_, ?_, ?_⟩, sixth⟩
  · rw [length_overwrite inside]
    exact shape.long
  · rw [first]
    exact shape.version
  · rw [sixth]
    exact shape.upper

theorem Ipv6Shape.append {packet : List UInt8} (shape : Ipv6Shape packet) (suffix : List UInt8) :
    Ipv6Shape (packet ++ suffix) := by
  have long := shape.long
  refine ⟨by rw [List.length_append]; omega, ?_, ?_⟩
  · rw [byteAt_append_left _ (by omega)]
    exact shape.version
  · rw [byteAt_append_left _ (by omega)]
    exact shape.upper

theorem patchLength_shape {fields : FieldStore} {field : FieldRef} {start : Nat} {reason : String}
    {packet patched : List UInt8} (shape : Ipv6Shape packet) (apart : start = 4 ∨ 7 ≤ start)
    (done : patchLength fields field start reason packet = .ok patched) :
    Ipv6Shape patched ∧ byteAt patched 6 = byteAt packet 6 := by
  unfold patchLength copyInto at done
  split at done
  · cases done
    exact ⟨shape, rfl⟩
  · split at done
    · split at done
      · rename_i inside
        cases done
        refine shape.overwrite inside ?_
        rw [length_toBytes]
        omega
      · simp at done
    · simp at done

/-- Patching the checksum keeps the shape and leaves the computed one, unless the checksum was
    sent. -/
theorem patchChecksum_consistent {fields : FieldStore} {packet patched : List UInt8}
    (shape : Ipv6Shape packet)
    (inside : 40 + checksumStart (byteAt packet 6) + 2 ≤ packet.length)
    (done : patchChecksum fields (checksumField (byteAt packet 6))
      (40 + checksumStart (byteAt packet 6)) (byteAt packet 6) packet = .ok patched) :
    Consistent fields .outer patched ∧ patched.length = packet.length ∧
      byteAt patched 6 = byteAt packet 6 := by
  rw [patchChecksum_eq _ _ _ (by omega) inside] at done
  cases done
  by_cases present : fields.containsFieldScope (checksumField (byteAt packet 6)) .outer
  · rw [if_pos present]
    refine ⟨⟨shape, fun absent => ?_⟩, rfl, rfl⟩
    rw [present] at absent
    cases absent
  · rw [if_neg present]
    generalize startEq : checksumStart (byteAt packet 6) = start at inside ⊢
    have zeroInside : 40 + start + ([0, 0] : List UInt8).length ≤ packet.length := by simpa using inside
    have zeroed := length_overwrite zeroInside
    generalize checksumEq : transportChecksum (cut packet 8 24) (cut packet 24 40) (byteAt packet 6)
      ((overwrite packet (40 + start) [0, 0]).drop 40) = checksum
    have fillInside : 40 + start + (toBytes 2 checksum).length ≤
        (overwrite packet (40 + start) [0, 0]).length := by
      rw [zeroed]
      simpa using inside
    have filled := length_overwrite fillInside
    obtain ⟨shape₁, sixth₁⟩ := shape.overwrite zeroInside (.inl (by omega))
    obtain ⟨shape₂, sixth₂⟩ := shape₁.overwrite fillInside (.inl (by omega))
    refine ⟨⟨shape₂, fun _ => ?_⟩, by rw [filled, zeroed], by rw [sixth₂, sixth₁]⟩
    have segment : ((overwrite packet (40 + start) [0, 0]).drop 40) =
        overwrite (packet.drop 40) start [0, 0] := by
      rw [drop_overwrite_before (by omega) (by omega), Nat.add_sub_cancel_left]
    have longSegment : start + ([0, 0] : List UInt8).length ≤ (packet.drop 40).length := by
      simp only [List.length_drop, List.length_cons, List.length_nil]
      omega
    have source : ∀ a b, b ≤ 40 →
        cut (overwrite (overwrite packet (40 + start) [0, 0]) (40 + start) (toBytes 2 checksum)) a b =
          cut packet a b := by
      intro a b early
      rw [cut_overwrite_before (by omega) (by omega), cut_overwrite_before (by omega) (by omega)]
    have headed : Headed (byteAt packet 6) (cut packet 8 24) (cut packet 24 40)
        (overwrite (overwrite (packet.drop 40) start [0, 0]) start (toBytes 2
          (transportChecksum (cut packet 8 24) (cut packet 24 40) (byteAt packet 6)
            (overwrite (packet.drop 40) start [0, 0]))))
        (overwrite (overwrite packet (40 + start) [0, 0]) (40 + start) (toBytes 2 checksum)) := by
      constructor
      · rw [filled, zeroed, length_overwrite, length_overwrite longSegment]
        · simp only [List.length_drop]
          omega
        · rw [length_overwrite longSegment]
          simpa using longSegment
      · exact shape₂.version
      · rw [sixth₂, sixth₁]
      · exact source 8 24 (by omega)
      · exact source 24 40 (Nat.le_refl _)
      · rw [drop_overwrite_before (by omega) (by omega), segment, Nat.add_sub_cancel_left,
          ← checksumEq, segment]
    subst startEq
    refine headed.resummed ?_ (cut_overwrite_same longSegment)
    rw [length_overwrite longSegment]
    simpa using longSegment

theorem patchUpper_consistent {fields : FieldStore} {packet patched : List UInt8}
    (shape : Ipv6Shape packet) (done : patchUpper fields (byteAt packet 6) packet = .ok patched) :
    Consistent fields .outer patched := by
  rcases shape.upper with udp | icmp
  · simp only [patchUpper, udp, ↓reduceIte, patchUdp] at done
    split at done
    · simp at done
    · rename_i long
      simp only [bind_eq_ok] at done
      obtain ⟨sized, lengthened, summed, checked, done⟩ := done
      obtain ⟨shape₁, sixth⟩ := patchLength_shape shape (.inr (by omega)) lengthened
      have length := length_of_patchLength lengthened
      rw [udp] at sixth
      have result : Consistent fields .outer summed := by
        refine (patchChecksum_consistent shape₁ ?_ ?_).1
        · simp only [sixth, checksumStart, ↓reduceIte]
          omega
        · simpa [sixth, checksumStart, checksumField] using checked
      split at done
      · simp only [bind_eq_ok] at done
        obtain ⟨_, -, _, -, done⟩ := done
        cases done
        exact result
      · cases done
        exact result
  · have other : ¬ (58 : UInt8) = 17 := by decide
    simp only [patchUpper, icmp, other, ↓reduceIte, patchIcmpv6] at done
    split at done
    · simp at done
    · rename_i long
      simp only [bind_eq_ok] at done
      obtain ⟨summed, checked, _, -, _, -, done⟩ := done
      cases done
      refine (patchChecksum_consistent shape ?_ ?_).1
      · simp only [icmp, checksumStart, other, ↓reduceIte]
        omega
      · simpa [icmp, checksumStart, checksumField, other] using checked

/-- What passes the final length check parses as IPv6 and, over UDP, as UDP. -/
structure WellFormed (packet : List UInt8) : Prop where
  ipv6 : ∃ p, Ipv6Packet.parse packet = .ok p
  upper : ∀ p, Ipv6Packet.parse packet = .ok p →
    (p.nextHeader = 17 ∧ ∃ udp, UdpDatagram.parse p.payload = .ok udp) ∨ p.nextHeader = 58

theorem Ipv6Shape.wellFormed {packet : List UInt8} (shape : Ipv6Shape packet)
    (checked : validatePacketLengths packet = .ok ()) : WellFormed packet := by
  have looks : packet.length ≥ 40 ∧ byteAt packet 0 >>> 4 = 6 := ⟨shape.long, shape.version⟩
  simp only [validatePacketLengths, looks, and_self, ↓reduceIte, bind_eq_ok] at checked
  obtain ⟨p, parsed, checked⟩ := checked
  refine ⟨⟨p, parsed⟩, fun other parsed' => ?_⟩
  rw [parsed] at parsed'
  cases parsed'
  have same := Ipv6Packet.parse_eq_ok.mp parsed
  have sixth : p.nextHeader = byteAt packet 6 := by rw [Ipv6Packet.nextHeader_eq, same]
  rcases shape.upper with udp | icmp
  · left
    rw [sixth, udp] at checked
    simp only [↓reduceIte, bind_eq_ok] at checked
    obtain ⟨datagram, parsedUdp, -⟩ := checked
    exact ⟨by rw [sixth, udp], datagram, parsedUdp⟩
  · right
    rw [sixth, icmp]

theorem WellFormed.short {packet : List UInt8} (wellFormed : WellFormed packet) :
    packet.length ≤ 40 + 65535 := by
  obtain ⟨p, parsed⟩ := wellFormed.ipv6
  have same := Ipv6Packet.parse_eq_ok.mp parsed
  have length := p.length_payload
  have bound := p.payload_lt
  rw [same] at length
  omega

/-- A packet rebuilt from its fields alone. -/
theorem reconstructPacket_wellFormed {direction : Direction} {fields : FieldStore}
    {packet : List UInt8} (done : reconstructPacket direction fields = .ok packet) :
    WellFormed packet ∧ Consistent fields .outer packet := by
  simp only [reconstructPacket, bind_eq_ok] at done
  obtain ⟨rebuilt, made, _, checked, done⟩ := done
  cases done
  have consistent := reconstructPacketAt_consistent made
  exact ⟨consistent.shape.wellFormed checked, consistent⟩

theorem joinSuffix_shape {direction : Direction} {fields : FieldStore} {suffix packet : List UInt8}
    (done : joinSuffix direction fields suffix = .ok packet) : Ipv6Shape packet := by
  simp only [joinSuffix, bind_eq_ok] at done
  obtain ⟨injects, -, done⟩ := done
  split at done
  · simp only [bind_eq_ok] at done
    obtain ⟨_, -, _, -, made⟩ := done
    exact (reconstructPacketAt_consistent made).shape
  · simp only [bind_eq_ok] at done
    obtain ⟨front, made, done⟩ := done
    cases done
    exact (reconstructPacketAt_consistent made).shape.append suffix

/-- A packet rebuilt around a carried suffix. -/
theorem reconstructPacketWithSuffix_wellFormed {direction : Direction} {fields : FieldStore}
    {suffix packet : List UInt8}
    (done : reconstructPacketWithSuffix direction fields suffix = .ok packet) :
    WellFormed packet ∧ Consistent fields .outer packet := by
  simp only [reconstructPacketWithSuffix, bind_eq_ok] at done
  obtain ⟨joined, made, done⟩ := done
  have shape := joinSuffix_shape made
  split at done
  · simp at done
  · rename_i long
    rw [index_eq (by omega), ok_bind] at done
    simp only [bind_eq_ok] at done
    obtain ⟨sized, lengthened, patched, summed, _, checked, done⟩ := done
    cases done
    obtain ⟨shape₁, sixth⟩ := patchLength_shape shape (.inl rfl) lengthened
    rw [← sixth] at summed
    have consistent := patchUpper_consistent shape₁ summed
    exact ⟨consistent.shape.wellFormed checked, consistent⟩

end SchcCore
