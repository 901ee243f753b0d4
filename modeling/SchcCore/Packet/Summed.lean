import SchcCore.Packet.Described

/- The checksum accumulator is a `u32`. The rebuild functions, over a sum that may refuse a
   segment, and the entries over which they meet a segment that a checked sum refuses. -/
namespace SchcCore
open Outcome Bytes BigEndian BitList OnesComplement FieldStore

/-- Where an addition overflows in a build that checks arithmetic. -/
def additionOverflow : PanicSite := .expect "attempt to add with overflow"

namespace Checksum

/-- `self.sum += u32::from(word)`, checked. -/
def tryAddWord (c : Checksum) (word : Nat) : Result Checksum :=
  if c.sum + word < 2 ^ 32 then .ok (c.addWord word) else panicAt additionOverflow

def tryAddByte (c : Checksum) (byte : UInt8) : Result Checksum :=
  match c.pending with
  | some high => { c with pending := none }.tryAddWord (value [high, byte])
  | none => .ok { c with pending := some byte }

def tryAddBytes (c : Checksum) : List UInt8 → Result Checksum
  | [] => .ok c
  | byte :: bytes => do
      let c ← c.tryAddByte byte
      c.tryAddBytes bytes

def tryFlush (c : Checksum) : Result Checksum :=
  match c.pending with
  | some high => { c with pending := none }.tryAddWord (value [high, 0])
  | none => .ok c

def tryFinish (c : Checksum) : Result Nat := do
  let c ← c.tryFlush
  .ok c.finish

theorem tryAddBytes_append (c : Checksum) (front rest : List UInt8) :
    c.tryAddBytes (front ++ rest) = (c.tryAddBytes front >>= fun c => c.tryAddBytes rest) := by
  induction front generalizing c with
  | nil => rfl
  | cons byte front ih =>
    rw [List.cons_append, tryAddBytes, tryAddBytes]
    cases c.tryAddByte byte with
    | error halt => rfl
    | ok next => exact ih next

/-- From an even start the checked sum adds up whole words, and gives up when their total does
    not fit. -/
theorem tryFinish_tryAddBytes {sum : Nat} (small : sum < 2 ^ 32) (bytes : List UInt8) :
    ((⟨sum, none⟩ : Checksum).tryAddBytes bytes >>= fun c => c.tryFinish) =
      if sum + wordSum bytes < 2 ^ 32 then .ok (finish ⟨sum + wordSum bytes, none⟩)
      else panicAt additionOverflow := by
  match bytes with
  | [] =>
    have fits : sum + wordSum [] < 2 ^ 32 := small
    rw [if_pos fits]
    rfl
  | [high] =>
    have last : ((⟨sum, none⟩ : Checksum).tryAddBytes [high] >>= fun c => c.tryFinish) =
        ((⟨sum, none⟩ : Checksum).tryAddWord (value [high, 0]) >>= fun c => .ok c.finish) := rfl
    have padded : wordSum [high] = value [high, 0] := by simp [wordSum, value]
    rw [last, tryAddWord, padded]
    split
    · rename_i fits
      simp only [ok_bind, addWord, Nat.mod_eq_of_lt fits]
    · rfl
  | high :: low :: rest =>
    have first : ((⟨sum, none⟩ : Checksum).tryAddBytes (high :: low :: rest) >>=
          fun c => c.tryFinish) =
        ((⟨sum, none⟩ : Checksum).tryAddWord (value [high, low]) >>= fun c =>
          c.tryAddBytes rest >>= fun c => c.tryFinish) := by
      change (((⟨sum, none⟩ : Checksum).tryAddWord (value [high, low]) >>= fun c =>
        c.tryAddBytes rest) >>= fun c => c.tryFinish) = _
      cases (⟨sum, none⟩ : Checksum).tryAddWord (value [high, low]) <;> rfl
    have total : wordSum (high :: low :: rest) = value [high, low] + wordSum rest := by
      simp [wordSum, value]
    rw [first, tryAddWord, total]
    split
    · rename_i fits
      have added : addWord ⟨sum, none⟩ (value [high, low]) = ⟨sum + value [high, low], none⟩ := by
        rw [addWord, Nat.mod_eq_of_lt fits]
      rw [ok_bind, added, tryFinish_tryAddBytes fits, Nat.add_assoc]
    · rename_i large
      have overflows : ¬ sum + value [high, low] < 2 ^ 32 := large
      rw [if_neg (by omega)]
      rfl

end Checksum

/-- `transport_checksum` with checked additions. -/
def tryTransportChecksum (source destination : List UInt8) (nextHeader : UInt8)
    (segment : List UInt8) : Result Nat := do
  let sum ← Checksum.new.tryAddBytes source
  let sum ← sum.tryAddBytes destination
  let sum ← sum.tryAddBytes (toBytes 4 (segment.length % 2 ^ 32))
  let sum ← sum.tryAddBytes [0, 0, 0, nextHeader]
  let sum ← sum.tryAddBytes segment
  sum.tryFinish

/-- A sum that also refuses a segment no length field can count. -/
def boundedChecksum (source destination : List UInt8) (nextHeader : UInt8)
    (segment : List UInt8) : Result Nat :=
  if segment.length ≤ 65535 then tryTransportChecksum source destination nextHeader segment
  else panicAt additionOverflow

/-- What the accumulator holds before folding. -/
def accumulated (source destination : List UInt8) (nextHeader : UInt8) (segment : List UInt8) :
    Nat :=
  wordSum (pseudoHeader source destination nextHeader (segment.length % 2 ^ 32) ++ segment)

theorem tryTransportChecksum_eq (source destination : List UInt8) (nextHeader : UInt8)
    (segment : List UInt8) :
    tryTransportChecksum source destination nextHeader segment =
      if accumulated source destination nextHeader segment < 2 ^ 32 then
        .ok (transportChecksum source destination nextHeader segment)
      else panicAt additionOverflow := by
  have joined : tryTransportChecksum source destination nextHeader segment =
      (Checksum.new.tryAddBytes
        (pseudoHeader source destination nextHeader (segment.length % 2 ^ 32) ++ segment) >>=
        fun sum => sum.tryFinish) := by
    simp only [pseudoHeader, Checksum.tryAddBytes_append, bind_assoc]
    rfl
  have whole : transportChecksum source destination nextHeader segment =
      (Checksum.new.addBytes
        (pseudoHeader source destination nextHeader (segment.length % 2 ^ 32) ++ segment)).finish := by
    simp only [transportChecksum, pseudoHeader, Checksum.addBytes_addBytes]
  have summed := Checksum.finish_addBytes 0
    (pseudoHeader source destination nextHeader (segment.length % 2 ^ 32) ++ segment)
  rw [Nat.zero_add] at summed
  change (Checksum.new.addBytes _).finish = _ at summed
  rw [joined, whole, summed]
  have checked := Checksum.tryFinish_tryAddBytes (show 0 < 2 ^ 32 by decide)
    (pseudoHeader source destination nextHeader (segment.length % 2 ^ 32) ++ segment)
  rw [Nat.zero_add] at checked
  refine Eq.trans checked ?_
  unfold accumulated
  split
  · rename_i fits
    rw [Nat.mod_eq_of_lt fits]
  · rfl

/-- Between whole addresses no segment of at most 65535 bytes overflows. -/
theorem boundedChecksum_eq {source destination : List UInt8} (nextHeader : UInt8)
    (sourceLength : source.length = 16) (destinationLength : destination.length = 16)
    (segment : List UInt8) :
    boundedChecksum source destination nextHeader segment =
      if segment.length ≤ 65535 then
        .ok (transportChecksum source destination nextHeader segment)
      else panicAt additionOverflow := by
  unfold boundedChecksum
  split
  · rename_i short
    have header : (pseudoHeader source destination nextHeader (segment.length % 2 ^ 32)).length =
        40 := by
      simp [pseudoHeader, sourceLength, destinationLength]
    have bound := wordSum_le
      (pseudoHeader source destination nextHeader (segment.length % 2 ^ 32) ++ segment)
    rw [List.length_append, header] at bound
    have fits : accumulated source destination nextHeader segment < 2 ^ 32 := by
      unfold accumulated
      omega
    rw [tryTransportChecksum_eq, if_pos fits]
  · rfl

/- Rebuilding over a sum. -/

section
variable (sum : List UInt8 → List UInt8 → UInt8 → List UInt8 → Result Nat)

def withChecksumBy (source destination : List UInt8) (nextHeader : UInt8) (upper : List UInt8)
    (computeChecksum : Bool) : Result (List UInt8) :=
  if computeChecksum then do
    let transportSum ← sum source destination nextHeader upper
    let start ← checksumRange nextHeader upper
    copyInto upper start (toBytes 2 transportSum)
  else .ok upper

def reconstructIpv6WithUpperBy (direction : Direction) (fields : FieldStore) (scope : PacketScope)
    (nextHeader : UInt8) (upper : List UInt8) (computeChecksum : Bool) : Result (List UInt8) := do
  let version ← firstU8At fields (.ipv6 (.known .ipv6Version)) scope
  let trafficClass ← firstU8At fields (.ipv6 (.known .ipv6TrafficClass)) scope
  let flowLabel ← firstUsizeAt fields (.ipv6 (.known .ipv6FlowLabel)) scope
  let hopLimit ← firstU8At fields (.ipv6 (.known .ipv6HopLimit)) scope
  let payloadLen ← sentOrCounted
    (fields.firstByFieldScope (.ipv6 (.known .ipv6PayloadLength)) scope)
    "sent IPv6 payload length does not fit u16" upper.length
    "IPv6 payload is too large to encode length"
  let (source, destination) ← endpointAddresses direction fields scope
  if version ≠ 6 ∨ flowLabel > 0x000fffff then
    invalidResidue "IPv6 fixed header fields are out of range"
  else do
    let upper ← withChecksumBy sum source destination nextHeader upper computeChecksum
    .ok (toBytes 4 ((version <<< 28) ||| (trafficClass <<< 20) ||| flowLabel) ++
      toBytes 2 payloadLen ++ [nextHeader, UInt8.ofNat hopLimit] ++ source ++ destination ++ upper)

def reconstructPacketAtBy : Nat → Direction → FieldStore → PacketScope → Result (List UInt8)
  | 0, _, _, _ => panicAt .stackOverflow
  | depth + 1, direction, fields, scope => do
      let nextHeader ← firstU8At fields (.ipv6 (.known .ipv6NextHeader)) scope
      if nextHeader = 17 then do
        let (upper, computeChecksum) ← reconstructUdp direction fields scope
        reconstructIpv6WithUpperBy sum direction fields scope 17 upper computeChecksum
      else if nextHeader = 58 then do
        let (upper, computeChecksum) ← reconstructIcmpv6
          (reconstructPacketAtBy depth (reverseDirection direction) fields .embedded) fields scope
        reconstructIpv6WithUpperBy sum direction fields scope 58 upper computeChecksum
      else invalidResidue s!"unsupported IPv6 next header {nextHeader}"

def reconstructPacketBy (direction : Direction) (fields : FieldStore) : Result (List UInt8) := do
  let packet ← reconstructPacketAtBy sum packetDepth direction fields .outer
  validatePacketLengths packet
  .ok packet

def joinSuffixBy (direction : Direction) (fields : FieldStore) (suffix : List UInt8) :
    Result (List UInt8) := do
  let injectIcmpPayload ← headerOnlyIcmpError fields
  if injectIcmpPayload then do
    validateEmbeddedIpv6Suffix suffix
    let payload ← FieldValue.fromBytes suffix (suffix.length * 8)
    reconstructPacketAtBy sum packetDepth direction (fields.insert ⟨.payload, 1, 0, .outer⟩ payload)
      .outer
  else do
    let packet ← reconstructPacketAtBy sum packetDepth direction fields .outer
    .ok (packet ++ suffix)

def patchChecksumBy (fields : FieldStore) (field : FieldRef) (start : Nat) (nextHeader : UInt8)
    (packet : List UInt8) : Result (List UInt8) :=
  if fields.containsFieldScope field .outer then .ok packet
  else do
    let source ← slice packet 8 24
    let destination ← slice packet 24 40
    let packet ← copyInto packet start [0, 0]
    let segment ← slice packet 40 packet.length
    let checksum ← sum source destination nextHeader segment
    copyInto packet start (toBytes 2 checksum)

def patchUdpBy (fields : FieldStore) (packet : List UInt8) : Result (List UInt8) :=
  if packet.length < 48 then invalidResidue "carried UDP packet is shorter than its header"
  else do
    let packet ← patchLength fields (.udp (.known .udpLength)) 44
      "carried UDP payload is too large" packet
    let packet ← patchChecksumBy sum fields (.udp (.known .udpChecksum)) 46 17 packet
    if fields.containsFieldScope (.coap (.known .coapVersion)) .outer then do
      let coap ← slice packet 48 packet.length
      let _ ← CoapMessage.parse coap
      .ok packet
    else .ok packet

def patchIcmpv6By (fields : FieldStore) (packet : List UInt8) : Result (List UInt8) :=
  if packet.length < 44 then invalidResidue "carried ICMPv6 packet is shorter than its header"
  else do
    let packet ← patchChecksumBy sum fields (.icmpv6 (.known .icmpv6Checksum)) 42 58 packet
    let segment ← slice packet 40 packet.length
    let _ ← Icmpv6Message.parse segment
    .ok packet

def patchUpperBy (fields : FieldStore) (nextHeader : UInt8) (packet : List UInt8) :
    Result (List UInt8) :=
  if nextHeader = 17 then patchUdpBy sum fields packet
  else if nextHeader = 58 then patchIcmpv6By sum fields packet
  else .ok packet

def reconstructPacketWithSuffixBy (direction : Direction) (fields : FieldStore)
    (suffix : List UInt8) : Result (List UInt8) := do
  let packet ← joinSuffixBy sum direction fields suffix
  if packet.length < 40 then
    invalidResidue "carried packet suffix follows an incomplete IPv6 header"
  else do
    let nextHeader ← index packet 6
    let packet ← patchLength fields (.ipv6 (.known .ipv6PayloadLength)) 4
      "carried IPv6 payload is too large" packet
    let packet ← patchUpperBy sum fields nextHeader packet
    validatePacketLengths packet
    .ok packet

end

/- Over the sum of a release build, these are the functions themselves. -/

/-- The sum of a build whose additions wrap. -/
def wrappingChecksum (source destination : List UInt8) (nextHeader : UInt8)
    (segment : List UInt8) : Result Nat :=
  .ok (transportChecksum source destination nextHeader segment)

section
variable (direction : Direction) (fields : FieldStore) (scope : PacketScope)

theorem withChecksumBy_wrapping (source destination : List UInt8) (nextHeader : UInt8)
    (upper : List UInt8) (computeChecksum : Bool) :
    withChecksumBy wrappingChecksum source destination nextHeader upper computeChecksum =
      withChecksum source destination nextHeader upper computeChecksum := by
  cases computeChecksum <;> rfl

theorem reconstructIpv6WithUpperBy_wrapping (nextHeader : UInt8) (upper : List UInt8)
    (computeChecksum : Bool) :
    reconstructIpv6WithUpperBy wrappingChecksum direction fields scope nextHeader upper
        computeChecksum =
      reconstructIpv6WithUpper direction fields scope nextHeader upper computeChecksum := by
  unfold reconstructIpv6WithUpperBy reconstructIpv6WithUpper
  simp only [withChecksumBy_wrapping]

theorem reconstructPacketAtBy_wrapping (depth : Nat) :
    reconstructPacketAtBy wrappingChecksum depth direction fields scope =
      reconstructPacketAt depth direction fields scope := by
  induction depth generalizing direction scope with
  | zero => rfl
  | succ depth ih =>
    rw [reconstructPacketAtBy, reconstructPacketAt]
    simp only [reconstructIpv6WithUpperBy_wrapping, ih]

theorem reconstructPacketBy_wrapping :
    reconstructPacketBy wrappingChecksum direction fields = reconstructPacket direction fields := by
  unfold reconstructPacketBy reconstructPacket
  rw [reconstructPacketAtBy_wrapping]

theorem patchChecksumBy_wrapping (field : FieldRef) (start : Nat) (nextHeader : UInt8)
    (packet : List UInt8) :
    patchChecksumBy wrappingChecksum fields field start nextHeader packet =
      patchChecksum fields field start nextHeader packet := rfl

theorem patchUpperBy_wrapping (nextHeader : UInt8) (packet : List UInt8) :
    patchUpperBy wrappingChecksum fields nextHeader packet = patchUpper fields nextHeader packet := by
  have udp : patchUdpBy wrappingChecksum fields packet = patchUdp fields packet := by
    unfold patchUdpBy patchUdp
    simp only [patchChecksumBy_wrapping]
  have icmp : patchIcmpv6By wrappingChecksum fields packet = patchIcmpv6 fields packet := by
    unfold patchIcmpv6By patchIcmpv6
    simp only [patchChecksumBy_wrapping]
  rw [patchUpperBy, patchUpper, udp, icmp]

theorem reconstructPacketWithSuffixBy_wrapping (suffix : List UInt8) :
    reconstructPacketWithSuffixBy wrappingChecksum direction fields suffix =
      reconstructPacketWithSuffix direction fields suffix := by
  have joined : joinSuffixBy wrappingChecksum direction fields suffix =
      joinSuffix direction fields suffix := by
    unfold joinSuffixBy joinSuffix
    simp only [reconstructPacketAtBy_wrapping]
  unfold reconstructPacketWithSuffixBy reconstructPacketWithSuffix
  simp only [joined, patchUpperBy_wrapping]

end

/- When a checked sum gives up. -/

/-- A run that ends in an overflow where `trips`, and as another run where not. -/
structure GivesUp {α : Type} (trips : Prop) (x y : Result α) : Prop where
  gives : trips → x = panicAt additionOverflow
  same : ¬ trips → x = y

section
variable {α β : Type} {trips trips' : Prop} {x y : Result α}

theorem GivesUp.never (clear : ¬ trips) : GivesUp trips x x :=
  ⟨fun trip => absurd trip clear, fun _ => rfl⟩

theorem GivesUp.congr (gives : GivesUp trips x y) (same : trips' ↔ trips) : GivesUp trips' x y :=
  ⟨fun trip => gives.gives (same.mp trip), fun clear => gives.same (fun trip => clear (same.mpr trip))⟩

theorem GivesUp.bind {later : α → Prop} {f g : α → Result β} (first : GivesUp trips x y)
    (rest : ∀ a, y = .ok a → GivesUp (later a) (f a) (g a)) :
    GivesUp (trips ∨ ∃ a, y = .ok a ∧ later a) (x >>= f) (y >>= g) := by
  by_cases trip : trips
  · refine ⟨fun _ => ?_, fun clear => absurd (.inl trip) clear⟩
    rw [first.gives trip]
    rfl
  · rw [first.same trip]
    cases made : y with
    | error halt =>
      refine ⟨?_, fun _ => rfl⟩
      rintro (now | ⟨a, same, -⟩)
      · exact absurd now trip
      · cases same
    | ok a =>
      refine (rest a made).congr ?_
      constructor
      · rintro (now | ⟨b, same, late⟩)
        · exact absurd now trip
        · cases same
          exact late
      · exact fun late => .inr ⟨a, rfl, late⟩

/-- Runs whose first step is the same. -/
theorem GivesUp.after {later : α → Prop} {f g : α → Result β}
    (rest : ∀ a, y = .ok a → GivesUp (later a) (f a) (g a)) :
    GivesUp (∃ a, y = .ok a ∧ later a) (y >>= f) (y >>= g) := by
  have never : GivesUp False y y := .never id
  exact (never.bind rest).congr (by simp)

theorem GivesUp.before {f : α → Result β} (first : GivesUp trips x y) :
    GivesUp trips (x >>= f) (y >>= f) := by
  have rest : ∀ a, y = .ok a → GivesUp False (f a) (f a) := fun _ _ => .never id
  exact (first.bind rest).congr (by simp)

theorem GivesUp.iff (gives : GivesUp trips x y) (never : y ≠ panicAt additionOverflow) :
    x = y ↔ ¬ trips := by
  constructor
  · intro same trip
    exact never (same ▸ gives.gives trip)
  · exact gives.same

end

section
variable {direction : Direction} {fields : FieldStore} {scope : PacketScope}

theorem withChecksum_gives_up {source destination : List UInt8} (nextHeader : UInt8)
    (sourceLength : source.length = 16) (destinationLength : destination.length = 16)
    (upper : List UInt8) (computeChecksum : Bool) :
    GivesUp (computeChecksum = true ∧ 65535 < upper.length)
      (withChecksumBy boundedChecksum source destination nextHeader upper computeChecksum)
      (withChecksum source destination nextHeader upper computeChecksum) := by
  cases computeChecksum with
  | false => exact .never (by simp)
  | true =>
    by_cases short : upper.length ≤ 65535
    · refine ⟨fun long => absurd long.2 (by omega), fun _ => ?_⟩
      simp only [withChecksumBy, withChecksum, boundedChecksum_eq nextHeader sourceLength
        destinationLength, short, ↓reduceIte, ok_bind]
    · refine ⟨fun _ => ?_, fun clear => absurd ⟨rfl, by omega⟩ clear⟩
      simp only [withChecksumBy, boundedChecksum_eq nextHeader sourceLength destinationLength,
        short, ↓reduceIte]
      rfl

theorem reconstructIpv6WithUpper_gives_up (nextHeader : UInt8) (upper : List UInt8)
    (computeChecksum : Bool) :
    GivesUp (computeChecksum = true ∧ 65535 < upper.length ∧ HeaderReady fields scope upper.length)
      (reconstructIpv6WithUpperBy boundedChecksum direction fields scope nextHeader upper
        computeChecksum)
      (reconstructIpv6WithUpper direction fields scope nextHeader upper computeChecksum) := by
  have writes : HeaderReady fields scope upper.length ↔ ∃ packet,
      reconstructIpv6WithUpper direction fields scope nextHeader upper false = .ok packet := by
    simp only [reconstructIpv6WithUpper_eq_ok, withChecksum, Bool.false_eq_true, ↓reduceIte]
    constructor
    · intro ready
      exact ⟨_, ready, upper, rfl, rfl⟩
    · rintro ⟨_, ready, -⟩
      exact ready
  constructor
  · rintro ⟨computes, long, ready⟩
    obtain ⟨packet, written⟩ := writes.mp ready
    simp only [reconstructIpv6WithUpper, bind_eq_ok] at written
    obtain ⟨version, versionRead, trafficClass, classRead, flowLabel, labelRead, hopLimit, hopRead,
      payloadLen, lengthRead, ⟨source, destination⟩, addressed, written⟩ := written
    obtain ⟨sourceLength, destinationLength⟩ := length_endpointAddresses addressed
    simp only [reconstructIpv6WithUpperBy, versionRead, classRead, labelRead, hopRead, lengthRead,
      addressed, ok_bind]
    split at written
    · simp at written
    · rename_i ranges
      rw [if_neg ranges, (withChecksum_gives_up nextHeader sourceLength destinationLength upper
        computeChecksum).gives ⟨computes, long⟩]
      rfl
  · intro clear
    refine bind_congr_ok fun version versionRead => bind_congr_ok fun trafficClass classRead =>
      bind_congr_ok fun flowLabel labelRead => bind_congr_ok fun hopLimit hopRead =>
      bind_congr_ok fun payloadLen lengthRead => bind_congr_ok fun addresses addressed => ?_
    obtain ⟨source, destination⟩ := addresses
    obtain ⟨sourceLength, destinationLength⟩ := length_endpointAddresses addressed
    dsimp only
    split
    · rfl
    · rename_i ranges
      have ready : HeaderReady fields scope upper.length := by
        refine writes.mpr ?_
        simp only [reconstructIpv6WithUpper, versionRead, classRead, labelRead, hopRead, lengthRead,
          addressed, ok_bind, if_neg ranges, withChecksum, Bool.false_eq_true, ↓reduceIte]
        exact ⟨_, rfl⟩
      rw [(withChecksum_gives_up nextHeader sourceLength destinationLength upper
        computeChecksum).same (fun long => clear ⟨long.1, long.2, ready⟩)]

/-- One level of the rebuild over a sum. -/
def rebuildAtBy (sum : List UInt8 → List UInt8 → UInt8 → List UInt8 → Result Nat)
    (inner : Result (List UInt8)) (direction : Direction) (fields : FieldStore)
    (scope : PacketScope) : Result (List UInt8) := do
  let made ← segmentAt inner direction fields scope
  reconstructIpv6WithUpperBy sum direction fields scope made.1 made.2.1 made.2.2

theorem reconstructPacketAtBy_succ
    (sum : List UInt8 → List UInt8 → UInt8 → List UInt8 → Result Nat) (depth : Nat) :
    reconstructPacketAtBy sum (depth + 1) direction fields scope =
      rebuildAtBy sum (reconstructPacketAtBy sum depth (reverseDirection direction) fields .embedded)
        direction fields scope := by
  unfold rebuildAtBy segmentAt
  rw [reconstructPacketAtBy]
  cases firstU8At fields (.ipv6 (.known .ipv6NextHeader)) scope with
  | error halt => rfl
  | ok nextHeader =>
    simp only [ok_bind]
    split
    · cases reconstructUdp direction fields scope <;> rfl
    · split
      · cases reconstructIcmpv6 (reconstructPacketAtBy sum depth (reverseDirection direction) fields
          .embedded) fields scope <;> rfl
      · rfl

/-- At this level of the rebuild a checksum is computed over a segment too long for a counted
    length. -/
def OversumsAt (inner : Result (List UInt8)) (direction : Direction) (fields : FieldStore)
    (scope : PacketScope) : Prop :=
  ∃ nextHeader upper, segmentAt inner direction fields scope = .ok (nextHeader, upper, true) ∧
    65535 < upper.length ∧ HeaderReady fields scope upper.length

theorem rebuildAt_gives_up (inner : Result (List UInt8)) :
    GivesUp (OversumsAt inner direction fields scope)
      (rebuildAtBy boundedChecksum inner direction fields scope)
      (rebuildAt inner direction fields scope) := by
  rw [rebuildAt_eq]
  refine (GivesUp.after fun made _ => reconstructIpv6WithUpper_gives_up _ _ _).congr ?_
  constructor
  · rintro ⟨nextHeader, upper, made, long, writes⟩
    exact ⟨_, made, rfl, long, writes⟩
  · rintro ⟨⟨nextHeader, upper, computes⟩, made, rfl, long, writes⟩
    exact ⟨nextHeader, upper, made, long, writes⟩

/-- The embedded packet as the outer one meets it. -/
def embeddedPacket (direction : Direction) (fields : FieldStore) : Result (List UInt8) :=
  reconstructPacketAt 1 (reverseDirection direction) fields .embedded

/- The entries over which it does. -/

/-- No checksum is stored for the upper layer of a scope, which is longer than a length can count,
    and the header is ready for it: the length it sends is not that of the upper layer. -/
structure LongToSum (fields : FieldStore) (scope : PacketScope) (size : Nat) : Prop where
  checksum : checksumStored fields scope = false
  long : 65535 < size
  header : HeaderReady fields scope size

/-- The outer packet is an ICMPv6 error with the header of an embedded packet. -/
structure EmbedsPacket (fields : FieldStore) : Prop where
  nextHeader : fields.Holds (.ipv6 (.known .ipv6NextHeader)) .outer 256
  icmpv6 : storedNextHeader fields .outer = 58
  error : ErrorReady fields .outer
  version : fields.containsFieldScope (.ipv6 (.known .ipv6Version)) .embedded = true

/-- The entries describe an outer packet, or an embedded one, whose upper layer is too long to be
    summed. -/
def Oversums (direction : Direction) (fields : FieldStore) : Prop :=
  (SegmentReady direction fields ∧ LongToSum fields .outer (segmentSize fields)) ∨
    (EmbedsPacket fields ∧ PlainReady fields .embedded ∧
      LongToSum fields .embedded (plainSize fields .embedded))

theorem oversumsAt_outer : OversumsAt (embeddedPacket direction fields) direction fields .outer ↔
    SegmentReady direction fields ∧ LongToSum fields .outer (segmentSize fields) := by
  constructor
  · rintro ⟨nextHeader, upper, found, long, header⟩
    obtain ⟨ready, segment⟩ := outerSegment_ready found
    have size : upper.length = segmentSize fields := segment.size
    have computes : true = !checksumStored fields .outer := segment.computes
    rw [size] at long header
    exact ⟨ready, by simpa using computes, long, header⟩
  · rintro ⟨ready, checksum, long, header⟩
    obtain ⟨⟨nextHeader, upper, computes⟩, found⟩ := ready.found
    obtain ⟨-, segment⟩ := outerSegment_ready found
    have size : upper.length = segmentSize fields := segment.size
    have computed : computes = !checksumStored fields .outer := segment.computes
    rw [checksum] at computed
    cases computed
    rw [← size] at long header
    exact ⟨nextHeader, upper, found, long, header⟩

theorem oversumsAt_embedded :
    OversumsAt (panicAt .stackOverflow) direction fields .embedded ↔
      PlainReady fields .embedded ∧ LongToSum fields .embedded (plainSize fields .embedded) := by
  unfold OversumsAt
  simp only [segmentAt_cases]
  constructor
  · rintro ⟨nextHeader, upper, ⟨ready, segment, described, made⟩ | ⟨-, body, carried, -⟩, long,
      header⟩
    · have same : segment = upper := (Prod.mk.inj (Prod.mk.inj made).2).1
      have computes : (!checksumStored fields .embedded) = true := (Prod.mk.inj (Prod.mk.inj made).2).2
      rw [← same, described.size] at long header
      exact ⟨ready, by simpa using computes, long, header⟩
    · obtain ⟨version, stored, -⟩ := header.version
      rw [icmpv6ErrorBody_eq_ok, if_pos (by rw [containsFieldScope, stored]; rfl)] at carried
      cases carried.1
  · rintro ⟨ready, checksum, long, header⟩
    obtain ⟨segment, described⟩ := ready.described direction
    rw [← described.size] at long header
    exact ⟨_, _, .inl ⟨ready, segment, described, by rw [checksum]; rfl⟩, long, header⟩

theorem typeWordReady_iff {messageType : UInt8} : typeWordReady fields scope messageType = true ↔
    ∃ v, fields.firstByFieldScope (typeWordField messageType) scope = some v ∧ v.bitLen = 32 := by
  unfold typeWordReady
  constructor
  · intro ready
    split at ready
    · rename_i word found
      simp only [Bool.and_eq_true, decide_eq_true_eq] at ready
      exact ⟨word, icmpv6TypeWord_eq_ok.mp found, ready.1⟩
    · cases ready
  · rintro ⟨word, stored, wide⟩
    have size := word.size
    have length : word.bytes.length = 4 := by omega
    rw [icmpv6TypeWord_eq_ok.mpr stored]
    simp [wide, length]

theorem entersEmbedded_iff : entersEmbedded fields .outer = true ↔ EmbedsPacket fields := by
  have isOk : ∀ {α : Type} {x : Result α}, x.isOk = true ↔ ∃ a, x = .ok a := by
    intro α x
    cases x <;> simp [Except.isOk, Except.toBool]
  constructor
  · intro enters
    simp only [entersEmbedded, Bool.and_eq_true, decide_eq_true_eq, isOk] at enters
    obtain ⟨⟨⟨⟨icmpv6, typed⟩, _, coded⟩, ⟨sum, computes⟩, summed⟩, version⟩ := enters
    obtain ⟨holds, icmpv6⟩ := firstU8At_eq_ok.mp icmpv6
    obtain ⟨checksum, -, -⟩ := sentOrZero_eq_ok.mp summed
    split at typed
    · rename_i messageType read
      obtain ⟨holdsType, rfl⟩ := firstU8At_eq_ok.mp read
      rw [Bool.and_eq_true] at typed
      exact ⟨holds, (storedNextHeader_eq (n := 58) holds (by decide)).mpr icmpv6,
        ⟨⟨holdsType, (firstU8At_eq_ok.mp coded).1, checksum⟩, typed.1,
          typeWordReady_iff.mp typed.2⟩, version⟩
    · cases typed
  · rintro ⟨holds, icmpv6, error, version⟩
    have number := (storedNextHeader_eq (n := 58) holds (by decide)).mp icmpv6
    have kind := error.error
    have word := typeWordReady_iff.mpr error.word
    have checksum : sentOrZero
        (fields.firstByFieldScope (.icmpv6 (.known .icmpv6Checksum)) .outer)
        "sent ICMPv6 checksum does not fit u16" = .ok _ :=
      sentOrZero_eq_ok.mpr ⟨error.checksum, rfl, rfl⟩
    unfold storedType at kind word
    rw [entersEmbedded, firstU8At_eq_ok.mpr ⟨holds, number⟩,
      firstU8At_eq_ok.mpr ⟨error.messageType, rfl⟩, firstU8At_eq_ok.mpr ⟨error.code, rfl⟩, checksum,
      version]
    simp [kind, word, Except.isOk, Except.toBool]

theorem outer_gives_up (direction : Direction) (fields : FieldStore) :
    GivesUp (Oversums direction fields)
      (reconstructPacketAtBy boundedChecksum packetDepth direction fields .outer)
      (reconstructPacketAt packetDepth direction fields .outer) := by
  have embedded : GivesUp
      (OversumsAt (panicAt .stackOverflow) (reverseDirection direction) fields .embedded)
      (reconstructPacketAtBy boundedChecksum 1 (reverseDirection direction) fields .embedded)
      (embeddedPacket direction fields) := by
    rw [reconstructPacketAtBy_succ, embeddedPacket, reconstructPacketAt_succ]
    exact rebuildAt_gives_up _
  have outer : GivesUp (OversumsAt (embeddedPacket direction fields) direction fields .outer)
      (rebuildAtBy boundedChecksum (embeddedPacket direction fields) direction fields .outer)
      (rebuildAt (embeddedPacket direction fields) direction fields .outer) := rebuildAt_gives_up _
  have spelled : Oversums direction fields ↔
      OversumsAt (embeddedPacket direction fields) direction fields .outer ∨
        (entersEmbedded fields .outer = true ∧
          OversumsAt (panicAt .stackOverflow) (reverseDirection direction) fields .embedded) := by
    rw [Oversums, oversumsAt_outer, oversumsAt_embedded, entersEmbedded_iff]
  rw [packetDepth, reconstructPacketAtBy_succ, reconstructPacketAt_succ]
  by_cases trip : OversumsAt (panicAt .stackOverflow) (reverseDirection direction) fields .embedded
  · rw [embedded.gives trip]
    by_cases enters : entersEmbedded fields .outer = true
    · refine ⟨fun _ => ?_, fun clear => absurd (spelled.mpr (.inr ⟨enters, trip⟩)) clear⟩
      rw [rebuildAtBy, segmentAt_enters enters]
      rfl
    · rw [Bool.not_eq_true] at enters
      rw [rebuildAtBy, segmentAt_skips enters direction _ (embeddedPacket direction fields)]
      exact outer.congr (spelled.trans (by simp [enters]))
  · rw [embedded.same trip]
    exact outer.congr (spelled.trans (by simp [trip]))

theorem reconstructPacket_gives_up (direction : Direction) (fields : FieldStore) :
    GivesUp (Oversums direction fields) (reconstructPacketBy boundedChecksum direction fields)
      (reconstructPacket direction fields) :=
  (outer_gives_up direction fields).before

/- The carried suffix. -/

/-- Rebuilding what the suffix is joined to computes such a checksum. -/
def JoinOversums (direction : Direction) (fields : FieldStore) (suffix : List UInt8) : Prop :=
  (headerOnlyIcmpError fields = .ok false ∧ Oversums direction fields) ∨
    (headerOnlyIcmpError fields = .ok true ∧ validateEmbeddedIpv6Suffix suffix = .ok () ∧
      ∃ payload, FieldValue.fromBytes suffix (suffix.length * 8) = .ok payload ∧
        Oversums direction (fields.insert ⟨.payload, 1, 0, .outer⟩ payload))

theorem joinSuffix_gives_up (suffix : List UInt8) :
    GivesUp (JoinOversums direction fields suffix)
      (joinSuffixBy boundedChecksum direction fields suffix)
      (joinSuffix direction fields suffix) := by
  have each : ∀ inject, headerOnlyIcmpError fields = .ok inject →
      GivesUp (if inject = true then validateEmbeddedIpv6Suffix suffix = .ok () ∧
          ∃ payload, FieldValue.fromBytes suffix (suffix.length * 8) = .ok payload ∧
            Oversums direction (fields.insert ⟨.payload, 1, 0, .outer⟩ payload)
        else Oversums direction fields)
      (if inject = true then validateEmbeddedIpv6Suffix suffix >>= fun _ =>
          FieldValue.fromBytes suffix (suffix.length * 8) >>= fun payload =>
            reconstructPacketAtBy boundedChecksum packetDepth direction
              (fields.insert ⟨.payload, 1, 0, .outer⟩ payload) .outer
        else reconstructPacketAtBy boundedChecksum packetDepth direction fields .outer >>=
          fun packet => .ok (packet ++ suffix))
      (if inject = true then validateEmbeddedIpv6Suffix suffix >>= fun _ =>
          FieldValue.fromBytes suffix (suffix.length * 8) >>= fun payload =>
            reconstructPacketAt packetDepth direction
              (fields.insert ⟨.payload, 1, 0, .outer⟩ payload) .outer
        else reconstructPacketAt packetDepth direction fields .outer >>=
          fun packet => .ok (packet ++ suffix)) := by
    intro inject _
    cases inject with
    | false => exact (outer_gives_up direction fields).before
    | true =>
      refine (GivesUp.after fun _ _ => GivesUp.after fun payload _ =>
        outer_gives_up direction (fields.insert ⟨.payload, 1, 0, .outer⟩ payload)).congr ?_
      constructor
      · rintro ⟨valid, payload, whole, trip⟩
        exact ⟨(), valid, payload, whole, trip⟩
      · rintro ⟨_, valid, payload, whole, trip⟩
        exact ⟨valid, payload, whole, trip⟩
  refine (GivesUp.after each).congr ?_
  unfold JoinOversums
  constructor
  · rintro (⟨known, trip⟩ | ⟨known, trip⟩)
    · exact ⟨false, known, trip⟩
    · exact ⟨true, known, trip⟩
  · rintro ⟨inject, known, trip⟩
    cases inject with
    | false => exact .inl ⟨known, trip⟩
    | true => exact .inr ⟨known, trip⟩

theorem patchChecksum_gives_up (field : FieldRef) {start : Nat} (nextHeader : UInt8)
    {packet : List UInt8} (below : 40 ≤ start) (inside : start + 2 ≤ packet.length) :
    GivesUp (fields.containsFieldScope field .outer = false ∧ 65575 < packet.length)
      (patchChecksumBy boundedChecksum fields field start nextHeader packet)
      (patchChecksum fields field start nextHeader packet) := by
  by_cases sent : fields.containsFieldScope field .outer = true
  · simp only [patchChecksumBy, patchChecksum, sent, ↓reduceIte]
    exact .never (by simp)
  · have zeroed : (overwrite packet start [0, 0]).length = packet.length :=
      length_overwrite (by simpa using inside)
    have sourceLength : (cut packet 8 24).length = 16 := by
      rw [length_cut (by omega)]
    have destinationLength : (cut packet 24 40).length = 16 := by
      rw [length_cut (by omega)]
    have segmentLength : ((overwrite packet start [0, 0]).drop 40).length = packet.length - 40 := by
      rw [List.length_drop, zeroed]
    unfold patchChecksumBy patchChecksum
    rw [if_neg sent, if_neg sent, slice_eq (by omega) (by omega), ok_bind, ok_bind, slice_eq (by omega) (by omega), ok_bind,
      ok_bind, copyInto_eq (by simpa using inside), ok_bind, ok_bind,
      slice_eq (by omega) (Nat.le_refl _), ok_bind, ok_bind, cut_to_end,
      boundedChecksum_eq nextHeader sourceLength destinationLength, segmentLength]
    by_cases short : packet.length - 40 ≤ 65535
    · rw [if_pos short, ok_bind]
      exact .never (by omega)
    · rw [if_neg short]
      exact ⟨fun _ => rfl, fun clear => absurd ⟨Bool.eq_false_iff.mpr sent, by omega⟩ clear⟩

theorem patchUdp_gives_up (packet : List UInt8) :
    GivesUp (fields.containsFieldScope (.udp (.known .udpLength)) .outer = true ∧
        fields.containsFieldScope (.udp (.known .udpChecksum)) .outer = false ∧
        65575 < packet.length)
      (patchUdpBy boundedChecksum fields packet) (patchUdp fields packet) := by
  unfold patchUdpBy patchUdp
  split
  · exact .never (by omega)
  · rename_i long
    refine (GivesUp.after fun patched done => (patchChecksum_gives_up (.udp (.known .udpChecksum)) 17
      (by omega) (by rw [length_of_patchLength done]; omega)).before).congr ?_
    constructor
    · rintro ⟨sent, absent, large⟩
      exact ⟨packet, by rw [patchLength, if_pos sent], absent, large⟩
    · rintro ⟨patched, done, absent, large⟩
      have length := length_of_patchLength done
      unfold patchLength at done
      split at done
      · rename_i sent
        exact ⟨sent, absent, by omega⟩
      · rw [if_neg (by omega)] at done
        simp at done

theorem patchIcmpv6_gives_up (packet : List UInt8) :
    GivesUp (fields.containsFieldScope (.icmpv6 (.known .icmpv6Checksum)) .outer = false ∧
        65575 < packet.length)
      (patchIcmpv6By boundedChecksum fields packet) (patchIcmpv6 fields packet) := by
  unfold patchIcmpv6By patchIcmpv6
  split
  · exact .never (by omega)
  · exact (patchChecksum_gives_up (.icmpv6 (.known .icmpv6Checksum)) 58 (by omega) (by omega)).before

/-- Patching a joined packet computes such a checksum: none of the lengths that would be counted
    first is the packet's own. -/
def PatchOversums (fields : FieldStore) (packet : List UInt8) : Prop :=
  65575 < packet.length ∧
    fields.containsFieldScope (.ipv6 (.known .ipv6PayloadLength)) .outer = true ∧
    ((byteAt packet 6 = 17 ∧
        fields.containsFieldScope (.udp (.known .udpLength)) .outer = true ∧
        fields.containsFieldScope (.udp (.known .udpChecksum)) .outer = false) ∨
      (byteAt packet 6 = 58 ∧
        fields.containsFieldScope (.icmpv6 (.known .icmpv6Checksum)) .outer = false))

theorem patchUpper_gives_up (nextHeader : UInt8) (packet : List UInt8) :
    GivesUp (65575 < packet.length ∧
        ((nextHeader = 17 ∧ fields.containsFieldScope (.udp (.known .udpLength)) .outer = true ∧
            fields.containsFieldScope (.udp (.known .udpChecksum)) .outer = false) ∨
          (nextHeader = 58 ∧
            fields.containsFieldScope (.icmpv6 (.known .icmpv6Checksum)) .outer = false)))
      (patchUpperBy boundedChecksum fields nextHeader packet)
      (patchUpper fields nextHeader packet) := by
  unfold patchUpperBy patchUpper
  by_cases udp : nextHeader = 17
  · subst udp
    refine (patchUdp_gives_up packet).congr ?_
    have other : ¬ (17 : UInt8) = 58 := by decide
    simp only [other, false_and, or_false, true_and]
    tauto
  · rw [if_neg udp, if_neg udp]
    by_cases icmp : nextHeader = 58
    · subst icmp
      refine (patchIcmpv6_gives_up packet).congr ?_
      simp only [udp, false_and, false_or, true_and]
      tauto
    · rw [if_neg icmp, if_neg icmp]
      exact .never (by tauto)

/- The entries, and the suffix, over which it does. -/

/-- With so many bytes carried behind it, the upper layer of the outer packet is too long to be
    summed: the lengths that would be counted first are all stored. -/
structure CarriedLong (direction : Direction) (fields : FieldStore) (carried : Nat) : Prop where
  segment : SegmentReady direction fields
  header : HeaderReady fields .outer (segmentSize fields)
  checksum : checksumStored fields .outer = false
  long : 65535 < segmentSize fields + carried
  length : fields.containsFieldScope (.ipv6 (.known .ipv6PayloadLength)) .outer = true
  udpLength : storedNextHeader fields .outer = 17 →
    fields.containsFieldScope (.udp (.known .udpLength)) .outer = true

/-- The store with a suffix as the payload of its ICMPv6 error. -/
def withPayload (fields : FieldStore) (suffix : List UInt8) : FieldStore :=
  fields.insert ⟨.payload, 1, 0, .outer⟩ (.ofBits (ofBytes suffix))

/-- The entries describe an upper layer too long to be summed, alone or with the suffix behind it or
    inside it. -/
def SuffixOversums (direction : Direction) (fields : FieldStore) (suffix : List UInt8) : Prop :=
  (headerOnlyIcmpError fields = .ok false ∧
      (Oversums direction fields ∨ CarriedLong direction fields suffix.length)) ∨
    (headerOnlyIcmpError fields = .ok true ∧ validateEmbeddedIpv6Suffix suffix = .ok () ∧
      Oversums direction (withPayload fields suffix))

theorem SegmentReady.nextHeader (ready : SegmentReady direction fields) :
    storedNextHeader fields .outer = 17 ∨ storedNextHeader fields .outer = 58 := by
  rcases ready with plain | carrier
  · rcases plain.segment with ⟨udp, -⟩ | ⟨icmpv6, -⟩
    · exact .inl udp
    · exact .inr icmpv6
  · exact .inr carrier.icmpv6

/-- Patching a packet of known length and next header. -/
theorem patchOversums_iff {packet : List UInt8} (size : Nat) (length : packet.length = 40 + size)
    (nextHeader : byteAt packet 6 = storedNextHeader fields .outer)
    (known : storedNextHeader fields .outer = 17 ∨ storedNextHeader fields .outer = 58) :
    PatchOversums fields packet ↔ checksumStored fields .outer = false ∧ 65535 < size ∧
      fields.containsFieldScope (.ipv6 (.known .ipv6PayloadLength)) .outer = true ∧
      (storedNextHeader fields .outer = 17 →
        fields.containsFieldScope (.udp (.known .udpLength)) .outer = true) := by
  have long : 65575 < packet.length ↔ 65535 < size := by omega
  rw [PatchOversums, nextHeader, long]
  rcases known with udp | icmpv6
  · simp only [checksumStored, udp]
    simp
    tauto
  · simp only [checksumStored, icmpv6]
    simp
    tauto

theorem payload_of_suffix (suffix : List UInt8) :
    FieldValue.fromBytes suffix (suffix.length * 8) = .ok (.ofBits (ofBytes suffix)) := by
  rw [Nat.mul_comm]
  exact FieldValue.fromBytes_whole suffix

theorem containsFieldScope_withPayload {field : FieldRef} (other : FieldRef.payload ≠ field)
    (suffix : List UInt8) :
    (withPayload fields suffix).containsFieldScope field scope =
      fields.containsFieldScope field scope := by
  rw [containsFieldScope, withPayload, firstByFieldScope_insert other, containsFieldScope]

theorem checksumStored_withPayload (fields : FieldStore) (scope : PacketScope)
    (suffix : List UInt8) :
    checksumStored (withPayload fields suffix) scope = checksumStored fields scope ∧
      storedNextHeader (withPayload fields suffix) scope = storedNextHeader fields scope := by
  have nextHeader : storedNextHeader (withPayload fields suffix) scope =
      storedNextHeader fields scope := by
    rw [storedNextHeader, FieldStore.number, withPayload, firstByFieldScope_insert (by simp),
      storedNextHeader, FieldStore.number]
  refine ⟨?_, nextHeader⟩
  rw [checksumStored, checksumStored, nextHeader]
  split
  · exact containsFieldScope_withPayload (by simp) suffix
  · exact containsFieldScope_withPayload (by simp) suffix

/-- A joined packet that is summed too long is one of too long an upper layer before, when the
    suffix is inside. -/
theorem patchOversums_inside {suffix packet : List UInt8}
    (rebuilt : reconstructPacketAt packetDepth direction (withPayload fields suffix) .outer =
      .ok packet) (trip : PatchOversums fields packet) :
    Oversums direction (withPayload fields suffix) := by
  obtain ⟨ready, header⟩ := outer_eq_ok_iff.mp ⟨packet, rebuilt⟩
  obtain ⟨length, nextHeader⟩ := outer_described rebuilt
  obtain ⟨sameSum, sameHeader⟩ := checksumStored_withPayload fields .outer suffix
  have known := ready.nextHeader
  rw [sameHeader] at nextHeader known
  obtain ⟨checksum, long, -⟩ := (patchOversums_iff _ length nextHeader known).mp trip
  exact .inl ⟨ready, sameSum.trans checksum, long, header⟩

theorem suffixOversums_iff {suffix : List UInt8} :
    SuffixOversums direction fields suffix ↔ JoinOversums direction fields suffix ∨
      ∃ packet, joinSuffix direction fields suffix = .ok packet ∧ PatchOversums fields packet := by
  cases known : headerOnlyIcmpError fields with
  | error halt => simp [SuffixOversums, JoinOversums, joinSuffix, known]
  | ok injected =>
    cases injected with
    | false =>
      have joined : ∀ packet, joinSuffix direction fields suffix = .ok packet ↔ ∃ front,
          reconstructPacketAt packetDepth direction fields .outer = .ok front ∧
            front ++ suffix = packet := by
        intro packet
        simp [joinSuffix, known, bind_eq_ok]
      have carried : CarriedLong direction fields suffix.length ↔
          ∃ packet, joinSuffix direction fields suffix = .ok packet ∧
            PatchOversums fields packet := by
        simp only [joined]
        constructor
        · intro carried
          obtain ⟨front, rebuilt⟩ := outer_eq_ok_iff.mpr ⟨carried.segment, carried.header⟩
          obtain ⟨length, nextHeader⟩ := outer_described rebuilt
          refine ⟨_, ⟨front, rebuilt, rfl⟩, ?_⟩
          refine (patchOversums_iff (segmentSize fields + suffix.length) ?_ ?_
            carried.segment.nextHeader).mpr
            ⟨carried.checksum, carried.long, carried.length, carried.udpLength⟩
          · rw [List.length_append, length]
            omega
          · rw [byteAt_append_left _ (by omega), nextHeader]
        · rintro ⟨_, ⟨front, rebuilt, rfl⟩, trip⟩
          obtain ⟨ready, header⟩ := outer_eq_ok_iff.mp ⟨front, rebuilt⟩
          obtain ⟨length, nextHeader⟩ := outer_described rebuilt
          obtain ⟨checksum, long, sent, udp⟩ := (patchOversums_iff
            (segmentSize fields + suffix.length)
            (by rw [List.length_append, length]; omega)
            (by rw [byteAt_append_left _ (by omega), nextHeader]) ready.nextHeader).mp trip
          exact ⟨ready, header, checksum, long, sent, udp⟩
      rw [← carried]
      simp [SuffixOversums, JoinOversums, known]
    | true =>
      have inside : validateEmbeddedIpv6Suffix suffix = .ok () →
          joinSuffix direction fields suffix =
            reconstructPacketAt packetDepth direction (withPayload fields suffix) .outer := by
        intro valid
        rw [joinSuffix, known, ok_bind, if_pos rfl, valid, ok_bind, payload_of_suffix]
        rfl
      have joins : JoinOversums direction fields suffix ↔
          validateEmbeddedIpv6Suffix suffix = .ok () ∧
            Oversums direction (withPayload fields suffix) := by
        simp [JoinOversums, known, payload_of_suffix, withPayload]
      have spelled : SuffixOversums direction fields suffix ↔
          validateEmbeddedIpv6Suffix suffix = .ok () ∧
            Oversums direction (withPayload fields suffix) := by
        simp [SuffixOversums, known]
      rw [spelled, joins]
      constructor
      · exact .inl
      · rintro (trip | ⟨packet, made, trip⟩)
        · exact trip
        · have valid : validateEmbeddedIpv6Suffix suffix = .ok () := by
            rw [joinSuffix, known, ok_bind, if_pos rfl, bind_eq_ok] at made
            obtain ⟨_, valid, -⟩ := made
            exact valid
          rw [inside valid] at made
          exact ⟨valid, patchOversums_inside made trip⟩

theorem reconstructPacketWithSuffix_gives_up (suffix : List UInt8) :
    GivesUp (SuffixOversums direction fields suffix)
      (reconstructPacketWithSuffixBy boundedChecksum direction fields suffix)
      (reconstructPacketWithSuffix direction fields suffix) := by
  refine GivesUp.congr ?_ suffixOversums_iff
  refine (joinSuffix_gives_up suffix).bind fun packet _ => ?_
  split
  · exact .never (by unfold PatchOversums; omega)
  · rename_i long
    rw [index_eq (by omega), ok_bind, ok_bind]
    refine (GivesUp.after fun patched _ =>
      (patchUpper_gives_up (byteAt packet 6) patched).before).congr ?_
    constructor
    · rintro ⟨large, sent, upper⟩
      exact ⟨packet, by rw [patchLength, if_pos sent], large, upper⟩
    · rintro ⟨patched, done, large, upper⟩
      have length := length_of_patchLength done
      unfold patchLength at done
      split at done
      · rename_i sent
        exact ⟨by omega, sent, upper⟩
      · rw [if_neg (by omega)] at done
        simp at done

/- What it takes. -/

/-- In this scope a length is sent that is not checked against the upper layer, and the checksum
    is computed. -/
structure SendsUnchecked (fields : FieldStore) (scope : PacketScope) : Prop where
  length : fields.containsFieldScope (.ipv6 (.known .ipv6PayloadLength)) scope = true
  udpLength : storedNextHeader fields scope = 17 →
    fields.containsFieldScope (.udp (.known .udpLength)) scope = true
  checksum : checksumStored fields scope = false

theorem FieldStore.Counts.stored {field : FieldRef} {size : Nat} (counts : fields.Counts field scope size)
    (long : 65535 < size) : fields.containsFieldScope field scope = true := by
  by_contra absent
  have small := counts.2 (Bool.eq_false_iff.mpr absent)
  omega

theorem LongToSum.sends (ready : PlainReady fields scope)
    (long : LongToSum fields scope (plainSize fields scope)) : SendsUnchecked fields scope := by
  refine ⟨long.header.length.stored long.long, fun udp => ?_, long.checksum⟩
  have size := long.long
  rw [plainSize, if_pos udp] at size
  rcases ready.segment with ⟨-, datagram⟩ | ⟨icmpv6, -⟩
  · exact datagram.length.stored size
  · rw [udp] at icmpv6
    cases icmpv6

theorem Oversums.sends (trip : Oversums direction fields) : ∃ scope, SendsUnchecked fields scope := by
  rcases trip with ⟨plain | carrier, long⟩ | ⟨-, ready, long⟩
  · rw [segmentSize, plain.not_carrier, if_neg (by decide)] at long
    exact ⟨.outer, long.sends plain⟩
  · refine ⟨.outer, long.header.length.stored long.long, fun udp => ?_, long.checksum⟩
    rw [carrier.icmpv6] at udp
    cases udp
  · exact ⟨.embedded, long.sends ready⟩

theorem SuffixOversums.sends {suffix : List UInt8}
    (trip : SuffixOversums direction fields suffix) : ∃ scope, SendsUnchecked fields scope := by
  rcases trip with ⟨-, trip | carried⟩ | ⟨-, -, trip⟩
  · exact trip.sends
  · exact ⟨.outer, carried.length, carried.udpLength, carried.checksum⟩
  · obtain ⟨scope, length, udpLength, checksum⟩ := trip.sends
    obtain ⟨sameSum, sameHeader⟩ := checksumStored_withPayload fields scope suffix
    rw [containsFieldScope_withPayload (by simp)] at length udpLength
    exact ⟨scope, length, fun udp => udpLength (sameHeader.trans udp), sameSum.symm.trans checksum⟩

end

end SchcCore
