import SchcCore.Roundtrip.Joined

/- The checksum that a conforming sender writes, and when a rebuilt packet has it. Only UDP
   reserves zero for a missing checksum and sends all ones in its place. -/
namespace SchcCore
open Outcome Bytes BigEndian OnesComplement FieldStore

/-- The sum a transport checksum is the complement of. -/
def transportSum (source destination : List UInt8) (nextHeader : UInt8) (segment : List UInt8) : Nat :=
  fold (wordSum (pseudoHeader source destination nextHeader segment.length) + wordSum segment)

/-- The complement of the folded sum, where UDP alone sends zero as all ones. -/
def conformingChecksum (source destination : List UInt8) (nextHeader : UInt8)
    (segment : List UInt8) : Nat :=
  let checksum := 65535 - transportSum source destination nextHeader segment
  if nextHeader = 17 ∧ checksum = 0 then 65535 else checksum

/-- An ICMPv6 message whose checksum is zero. -/
def SumsToOnes (source destination : List UInt8) (nextHeader : UInt8) (segment : List UInt8) : Prop :=
  nextHeader = 58 ∧ transportSum source destination nextHeader segment = 65535

theorem transportSum_le (source destination : List UInt8) (nextHeader : UInt8)
    (segment : List UInt8) : transportSum source destination nextHeader segment ≤ 65535 := fold_le _

theorem conformingChecksum_lt (source destination : List UInt8) (nextHeader : UInt8)
    (segment : List UInt8) : conformingChecksum source destination nextHeader segment < 65536 := by
  simp only [conformingChecksum]
  split <;> omega

section
variable {source destination segment : List UInt8} {nextHeader : UInt8}

theorem transportChecksum_eq_complement (sourceLength : source.length = 16)
    (destinationLength : destination.length = 16) (short : segment.length ≤ 65535) :
    transportChecksum source destination nextHeader segment =
      if transportSum source destination nextHeader segment = 65535 then 65535
      else 65535 - transportSum source destination nextHeader segment := by
  rw [transportChecksum_eq nextHeader sourceLength destinationLength short]
  rfl

/-- The checksum conforms unless it is an ICMPv6 one that should be zero. -/
theorem transportChecksum_conforms (sourceLength : source.length = 16)
    (destinationLength : destination.length = 16) (protocol : nextHeader = 17 ∨ nextHeader = 58)
    (short : segment.length ≤ 65535) :
    transportChecksum source destination nextHeader segment =
        conformingChecksum source destination nextHeader segment ↔
      ¬ SumsToOnes source destination nextHeader segment := by
  have bound := transportSum_le source destination nextHeader segment
  rw [transportChecksum_eq_complement sourceLength destinationLength short, SumsToOnes,
    conformingChecksum]
  rcases protocol with rfl | rfl
  · have other : ¬ (17 : UInt8) = 58 := by decide
    simp only [other, false_and, not_false_eq_true, iff_true, true_and]
    split <;> split <;> omega
  · have other : ¬ (58 : UInt8) = 17 := by decide
    simp only [other, false_and, true_and, if_false]
    split <;> omega

end

theorem toBytes_two_injective {a b : Nat} (ha : a < 65536) (hb : b < 65536) :
    toBytes 2 a = toBytes 2 b ↔ a = b := by
  constructor
  · intro same
    have values := congrArg value same
    rwa [value_toBytes (by simpa using ha), value_toBytes (by simpa using hb)] at values
  · intro same
    rw [same]

namespace Ipv6Packet
variable {p : Ipv6Packet}

/-- The checksum of the packet is the one a conforming sender generates. -/
def Generated (p : Ipv6Packet) : Prop :=
  cut p.payload (checksumStart p.nextHeader) (checksumStart p.nextHeader + 2) =
    toBytes 2 (conformingChecksum p.source p.destination p.nextHeader p.unsummed)

theorem length_unsummed (room : p.HasChecksum) : p.unsummed.length = p.payload.length := by
  unfold HasChecksum at room
  exact length_overwrite (by simpa using room)

theorem Generated.checksummed_iff (generated : p.Generated) (room : p.HasChecksum)
    (protocol : p.nextHeader = 17 ∨ p.nextHeader = 58) :
    p.Checksummed ↔ ¬ SumsToOnes p.source p.destination p.nextHeader p.unsummed := by
  have bound := p.payload_lt
  have short : p.unsummed.length ≤ 65535 := by
    rw [length_unsummed room]
    omega
  have sourceLength : p.source.length = 16 := length_cut (p.addresses (by decide))
  have destinationLength : p.destination.length = 16 := length_cut (p.addresses (by decide))
  have own := transportChecksum_conforms sourceLength destinationLength protocol short
  rw [Checksummed, generated, toBytes_two_injective (conformingChecksum_lt _ _ _ _)
    (transportChecksum_lt _ _ _ _), eq_comm]
  exact own

/-- Patching the checksum into a rebuilt upper layer. -/
theorem withChecksum_unsummed (room : p.HasChecksum)
    (protocol : p.nextHeader = 17 ∨ p.nextHeader = 58) :
    withChecksum p.source p.destination p.nextHeader p.unsummed true = .ok (p.resummed.drop 40) := by
  have long := length_unsummed room
  have inside := room.inside
  have found : checksumRange p.nextHeader p.unsummed = .ok (checksumStart p.nextHeader) := by
    unfold HasChecksum at room
    rcases protocol with udp | icmpv6
    · rw [udp, checksumStart, if_pos rfl] at room
      rw [udp, checksumRange, checksumStart, if_pos ⟨rfl, by omega⟩, if_pos rfl]
    · have other : ¬ (58 : UInt8) = 17 := by decide
      rw [icmpv6, checksumStart, if_neg other] at room
      rw [icmpv6, checksumRange, checksumStart, if_neg (fun udp => other udp.1),
        if_pos ⟨rfl, by omega⟩, if_neg other]
  unfold HasChecksum at room
  rw [withChecksum, if_pos rfl, found, ok_bind, copyInto_eq (by rw [long]; simpa using room), unsummed,
    overwrite_overwrite (by simp) (by simpa using room), resummed,
    drop_overwrite_before (by omega) (by omega), Nat.add_sub_cancel_left, p.drop_bytes]
  rfl

theorem resummed_drop_eq_iff (room : p.HasChecksum) :
    p.resummed.drop 40 = p.payload ↔ p.resummed = p.bytes := by
  have front : p.resummed.take 40 = p.bytes.take 40 := by
    have inside := room.inside
    have kept : cut p.resummed 0 40 = cut p.bytes 0 40 :=
      cut_overwrite_before (by omega) (by omega)
    simpa [cut] using kept
  constructor
  · intro same
    rw [← List.take_append_drop 40 p.resummed, same, front, ← p.drop_bytes, List.take_append_drop]
  · intro same
    rw [same, p.drop_bytes]

/-- The packet, whatever stands in its checksum. -/
structure BesidesChecksum (p : Ipv6Packet) (q : List UInt8) : Prop where
  length : q.length = p.bytes.length
  zeroed : overwrite q (40 + checksumStart p.nextHeader) [0, 0] =
    overwrite p.bytes (40 + checksumStart p.nextHeader) [0, 0]

theorem BesidesChecksum.nextHeader {q : List UInt8} (same : p.BesidesChecksum q)
    (room : p.HasChecksum) : byteAt q 6 = p.nextHeader := by
  have inside := room.inside
  have length := same.length
  have own : byteAt (overwrite q (40 + checksumStart p.nextHeader) [0, 0]) 6 = byteAt q 6 :=
    byteAt_overwrite_outside (by simp; omega) (.inl (by omega))
  rw [← own, same.zeroed, byteAt_overwrite_outside (by simp; omega) (.inl (by omega))]
  rfl

/-- With the computed checksum it is the packet with its own one computed. -/
theorem BesidesChecksum.eq_resummed {q : List UInt8} (same : p.BesidesChecksum q)
    (room : p.HasChecksum) (computed : Resummed q) : q = p.resummed := by
  have inside := room.inside
  have length := same.length
  have header : ∀ a b, b ≤ 40 → cut q a b = cut p.bytes a b := by
    intro a b early
    have own : cut (overwrite q (40 + checksumStart p.nextHeader) [0, 0]) a b = cut q a b :=
      cut_overwrite_before (by omega) (by omega)
    rw [← own, same.zeroed, cut_overwrite_before (by omega) (by omega)]
  have segment : overwrite (q.drop 40) (checksumStart p.nextHeader) [0, 0] = p.unsummed := by
    have own := congrArg (List.drop 40) same.zeroed
    rw [drop_overwrite_before (by omega) (by omega), drop_overwrite_before (by omega) (by omega),
      Nat.add_sub_cancel_left, p.drop_bytes] at own
    exact own
  have kept := computed.kept
  rw [same.nextHeader room, segment, header 8 24 (by decide), header 24 40 (by decide)] at kept
  have twice : ∀ bytes new : List UInt8, bytes.length = p.bytes.length → new.length = 2 →
      overwrite bytes (40 + checksumStart p.nextHeader) new =
        overwrite (overwrite bytes (40 + checksumStart p.nextHeader) [0, 0])
          (40 + checksumStart p.nextHeader) new := by
    intro bytes new size two
    exact (overwrite_overwrite (by rw [two]; rfl) (by simp; omega)).symm
  rw [← kept, twice q _ length (by simp), same.zeroed, ← twice p.bytes _ rfl (by simp)]
  rfl

end Ipv6Packet

/-- For every segment the computed checksum is the conforming one, and every packet with a
    generated checksum is rebuilt with it, where the checksum is filled in, where it is patched and
    on both ways to rebuild a whole packet, exactly unless it is an ICMPv6 packet whose checksum is
    zero. -/
theorem transport_checksum_conforms_iff {nextHeader : UInt8}
    (protocol : nextHeader = 17 ∨ nextHeader = 58) :
    (∀ source destination segment : List UInt8, source.length = 16 → destination.length = 16 →
      segment.length ≤ 65535 →
        (transportChecksum source destination nextHeader segment =
            conformingChecksum source destination nextHeader segment ↔
          ¬ SumsToOnes source destination nextHeader segment)) ∧
    (∀ p : Ipv6Packet, p.nextHeader = nextHeader → p.HasChecksum → p.Generated →
      (withChecksum p.source p.destination nextHeader p.unsummed true = .ok p.payload ↔
        ¬ SumsToOnes p.source p.destination nextHeader p.unsummed) ∧
      (∀ (fields : FieldStore) (other : List UInt8), other.length = 2 →
        fields.containsFieldScope (checksumField nextHeader) .outer = false →
        (patchChecksum fields (checksumField nextHeader) (40 + checksumStart nextHeader)
            nextHeader (overwrite p.bytes (40 + checksumStart nextHeader) other) = .ok p.bytes ↔
          ¬ SumsToOnes p.source p.destination nextHeader p.unsummed)) ∧
      ∀ (direction : Direction) (fields : FieldStore) (suffix q : List UInt8),
        (reconstructPacket direction fields = .ok q ∨
          reconstructPacketWithSuffix direction fields suffix = .ok q) →
        fields.containsFieldScope (checksumField nextHeader) .outer = false →
        p.BesidesChecksum q →
        (q = p.bytes ↔ ¬ SumsToOnes p.source p.destination nextHeader p.unsummed)) := by
  constructor
  · intro source destination segment sourceLength destinationLength short
    exact transportChecksum_conforms sourceLength destinationLength protocol short
  · rintro p rfl room generated
    have restored : p.resummed = p.bytes ↔
        ¬ SumsToOnes p.source p.destination p.nextHeader p.unsummed :=
      (Ipv6Packet.resummed_eq_iff room).trans (generated.checksummed_iff room protocol)
    refine ⟨?_, ?_, ?_⟩
    · rw [Ipv6Packet.withChecksum_unsummed room protocol, Except.ok.injEq,
        Ipv6Packet.resummed_drop_eq_iff room]
      exact restored
    · intro fields other two absent
      have patched := patchChecksum_recomputes room rfl fields two
      rw [absent, if_neg Bool.false_ne_true, Ipv6Packet.recomputed, absent,
        if_neg Bool.false_ne_true] at patched
      rw [patched, Except.ok.injEq]
      exact restored
    · intro direction fields suffix q rebuilt absent same
      have consistent : Consistent fields .outer q := by
        rcases rebuilt with whole | joined
        · exact (reconstructPacket_wellFormed whole).2
        · exact (reconstructPacketWithSuffix_wellFormed joined).2
      rw [← same.nextHeader room] at absent
      rw [same.eq_resummed room (consistent.resummed absent)]
      exact restored

/-- An echo request whose checksum is not zero. -/
theorem transport_checksum_conforms_at_echo :
    transportChecksum ([0x20, 0x01, 0x0d, 0xb8] ++ List.replicate 11 0 ++ [1])
        ([0x20, 0x01, 0x0d, 0xb8] ++ List.replicate 11 0 ++ [2]) 58
        [0x80, 0, 0, 0, 0x12, 0x34, 0, 1, 0x70, 0x69, 0x6e, 0x67] =
      conformingChecksum ([0x20, 0x01, 0x0d, 0xb8] ++ List.replicate 11 0 ++ [1])
        ([0x20, 0x01, 0x0d, 0xb8] ++ List.replicate 11 0 ++ [2]) 58
        [0x80, 0, 0, 0, 0x12, 0x34, 0, 1, 0x70, 0x69, 0x6e, 0x67] := by
  have odd : ¬ SumsToOnes ([0x20, 0x01, 0x0d, 0xb8] ++ List.replicate 11 0 ++ [1])
      ([0x20, 0x01, 0x0d, 0xb8] ++ List.replicate 11 0 ++ [2]) 58
      [0x80, 0, 0, 0, 0x12, 0x34, 0, 1, 0x70, 0x69, 0x6e, 0x67] := by
    rintro ⟨-, ones⟩
    revert ones
    decide +kernel
  exact ((transport_checksum_conforms_iff (.inr rfl)).1 _ _ _ rfl rfl (by decide)).mpr odd

/-- An echo request between two documentation addresses whose words sum to all ones: its
    checksum is zero, and the code writes all ones. -/
theorem zero_icmpv6_checksum_not_kept :
    transportChecksum ([0x20, 0x01, 0x0d, 0xb8] ++ List.replicate 11 0 ++ [1])
        ([0x20, 0x01, 0x0d, 0xb8] ++ List.replicate 11 0 ++ [2]) 58
        [0x80, 0, 0, 0, 0x12, 0x34, 0x33, 0x3f, 0x70, 0x69, 0x6e, 0x67] = 65535 ∧
      conformingChecksum ([0x20, 0x01, 0x0d, 0xb8] ++ List.replicate 11 0 ++ [1])
        ([0x20, 0x01, 0x0d, 0xb8] ++ List.replicate 11 0 ++ [2]) 58
        [0x80, 0, 0, 0, 0x12, 0x34, 0x33, 0x3f, 0x70, 0x69, 0x6e, 0x67] = 0 := by
  decide +kernel

end SchcCore
