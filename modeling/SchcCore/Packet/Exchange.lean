import SchcCore.Compress.Engine

/- Packets with their endpoints exchanged. What is read by role from a packet in one direction is
   read from the exchanged packet in the other, and what is rebuilt from the same fields in the
   other direction is the exchanged packet. -/
namespace SchcCore
open Outcome Bytes BigEndian OnesComplement FieldStore

/- Bytes. -/

theorem cut_middle (x y z : List UInt8) {start stop : Nat} (before : x.length = start)
    (through : start + y.length = stop) : cut (x ++ (y ++ z)) start stop = y := by
  subst before
  subst through
  rw [cut, ← List.append_assoc, List.take_append_of_le_length (by simp), ← List.length_append,
    List.take_length, List.drop_left]

/-- An upper-layer segment with source and destination port exchanged. -/
def exchangePorts (upper : List UInt8) : List UInt8 :=
  cut upper 2 4 ++ (cut upper 0 2 ++ upper.drop 4)

/-- Source and destination address, and source and destination port, exchanged. -/
def exchange (packet : List UInt8) : List UInt8 :=
  cut packet 0 8 ++ (cut packet 24 40 ++ (cut packet 8 24 ++
    (cut packet 42 44 ++ (cut packet 40 42 ++ packet.drop 44))))

/-- A packet cut at its addresses and ports. -/
structure Pieces (packet head a b s d rest : List UInt8) : Prop where
  joined : packet = head ++ (a ++ (b ++ (s ++ (d ++ rest))))
  head : head.length = 8
  first : a.length = 16
  second : b.length = 16
  third : s.length = 2
  fourth : d.length = 2

theorem exists_pieces {packet : List UInt8} (long : 44 ≤ packet.length) :
    Pieces packet (cut packet 0 8) (cut packet 8 24) (cut packet 24 40) (cut packet 40 42)
      (cut packet 42 44) (packet.drop 44) := by
  refine ⟨?_, length_cut (by omega), length_cut (by omega), length_cut (by omega),
    length_cut (by omega), length_cut long⟩
  rw [cut_append_drop _ (by decide) long, cut_append_drop _ (by decide) (by omega),
    cut_append_drop _ (by decide) (by omega), cut_append_drop _ (by decide) (by omega),
    cut_append_drop _ (by decide) (by omega), List.drop_zero]

namespace Pieces
variable {packet head a b s d rest : List UInt8} (pieces : Pieces packet head a b s d rest)
include pieces

theorem cuts : cut packet 0 8 = head ∧ cut packet 8 24 = a ∧ cut packet 24 40 = b ∧
    cut packet 40 42 = s ∧ cut packet 42 44 = d ∧ packet.drop 44 = rest := by
  obtain ⟨rfl, h0, h1, h2, h3, h4⟩ := pieces
  refine ⟨cut_middle [] head _ rfl (by omega), cut_middle head a _ h0 (by omega), ?_, ?_, ?_, ?_⟩
  · rw [← List.append_assoc head]
    exact cut_middle (head ++ a) b _ (by simp; omega) (by omega)
  · rw [← List.append_assoc head, ← List.append_assoc (head ++ a)]
    exact cut_middle (head ++ a ++ b) s _ (by simp; omega) (by omega)
  · rw [← List.append_assoc head, ← List.append_assoc (head ++ a),
      ← List.append_assoc (head ++ a ++ b)]
    exact cut_middle (head ++ a ++ b ++ s) d _ (by simp; omega) (by omega)
  · rw [← List.append_assoc head, ← List.append_assoc (head ++ a),
      ← List.append_assoc (head ++ a ++ b), ← List.append_assoc (head ++ a ++ b ++ s)]
    exact List.drop_left' (by simp; omega)

theorem exchange_eq : exchange packet = head ++ (b ++ (a ++ (d ++ (s ++ rest)))) := by
  obtain ⟨h0, h1, h2, h3, h4, h5⟩ := pieces.cuts
  rw [exchange, h0, h1, h2, h3, h4, h5]

theorem exchanged : Pieces (exchange packet) head b a d s rest :=
  ⟨pieces.exchange_eq, pieces.head, pieces.second, pieces.first, pieces.fourth, pieces.third⟩

end Pieces

theorem exchange_exchange {packet : List UInt8} (long : 44 ≤ packet.length) :
    exchange (exchange packet) = packet := by
  have pieces := exists_pieces long
  rw [pieces.exchanged.exchange_eq]
  exact pieces.joined.symm

theorem length_exchange {packet : List UInt8} (long : 44 ≤ packet.length) :
    (exchange packet).length = packet.length := by
  have pieces := exists_pieces long
  obtain ⟨joined, h0, h1, h2, h3, h4⟩ := pieces
  have whole := congrArg List.length joined
  simp only [exchange, List.length_append] at whole ⊢
  omega

theorem byteAt_exchange (packet : List UInt8) {i : Nat} (early : i < 8) (long : 44 ≤ packet.length) :
    byteAt (exchange packet) i = byteAt packet i := by
  have pieces := exists_pieces long
  have front : i < (cut packet 0 8).length := by rw [pieces.head]; exact early
  have same : ∀ tail, byteAt (cut packet 0 8 ++ tail) i = byteAt (cut packet 0 8) i := by
    intro tail
    rw [byteAt, byteAt, List.getD_append _ _ _ _ front]
  rw [exchange, same]
  conv_rhs => rw [pieces.joined, same]

theorem exchangePorts_joined {s d : List UInt8} (rest : List UInt8) (third : s.length = 2)
    (fourth : d.length = 2) : exchangePorts (s ++ (d ++ rest)) = d ++ (s ++ rest) := by
  have first : cut (s ++ (d ++ rest)) 0 2 = s := cut_middle [] s _ rfl (by omega)
  have second : cut (s ++ (d ++ rest)) 2 4 = d := cut_middle s d _ third (by omega)
  have after : (s ++ (d ++ rest)).drop 4 = rest := by
    rw [← List.append_assoc]
    exact List.drop_left' (by simp; omega)
  rw [exchangePorts, first, second, after]

theorem ports_split {upper : List UInt8} (long : 4 ≤ upper.length) :
    upper = cut upper 0 2 ++ (cut upper 2 4 ++ upper.drop 4) := by
  rw [cut_append_drop _ (by decide) long, cut_append_drop _ (by decide) (by omega), List.drop_zero]

theorem length_exchangePorts {upper : List UInt8} (long : 4 ≤ upper.length) :
    (exchangePorts upper).length = upper.length := by
  have whole := congrArg List.length (ports_split long)
  simp only [exchangePorts, List.length_append] at whole ⊢
  omega

theorem exchange_joined {head a b upper : List UInt8} (front : head.length = 8)
    (first : a.length = 16) (second : b.length = 16) (long : 4 ≤ upper.length) :
    exchange (head ++ (a ++ (b ++ upper))) = head ++ (b ++ (a ++ exchangePorts upper)) := by
  have third : (cut upper 0 2).length = 2 := length_cut (by omega)
  have fourth : (cut upper 2 4).length = 2 := length_cut long
  have pieces : Pieces (head ++ (a ++ (b ++ upper))) head a b (cut upper 0 2) (cut upper 2 4)
      (upper.drop 4) :=
    ⟨by rw [← ports_split long], front, first, second, third, fourth⟩
  exact pieces.exchange_eq

/- Packets. -/

namespace Ipv6Packet

/-- The packet with its endpoints exchanged. -/
def exchanged (p : Ipv6Packet) (long : 44 ≤ p.bytes.length) : Ipv6Packet where
  bytes := exchange p.bytes
  header := by
    have header := p.header
    rwa [length_exchange long]
  version := by
    rw [byteAt_exchange _ (by decide) long]
    exact p.version
  declared := by
    rw [byteAt_exchange _ (by decide) long, byteAt_exchange _ (by decide) long,
      length_exchange long]
    exact p.declared

variable {p : Ipv6Packet} (long : 44 ≤ p.bytes.length)
include long

theorem nextHeader_exchanged : (p.exchanged long).nextHeader = p.nextHeader :=
  byteAt_exchange _ (by decide) long

/-- An endpoint keeps its address. -/
theorem roleAddress_exchanged (direction : Direction) (role : Role) :
    roleAddress (p.exchanged long) (reverseDirection direction) role =
      roleAddress p direction role := by
  obtain ⟨-, source, destination, -⟩ := (exists_pieces long).exchanged.cuts
  cases direction <;> cases role
  · exact destination
  · exact source
  · exact source
  · exact destination

theorem payload_exchanged : (p.exchanged long).payload =
    cut p.bytes 42 44 ++ (cut p.bytes 40 42 ++ p.bytes.drop 44) := by
  obtain ⟨-, -, -, third, fourth, rest⟩ := (exists_pieces long).exchanged.cuts
  have size := length_exchange long
  change (exchange p.bytes).drop 40 = _
  rw [← third, ← fourth, ← rest, cut_append_drop _ (by decide) (by omega),
    cut_append_drop _ (by decide) (by omega)]

end Ipv6Packet

namespace UdpDatagram

/-- The datagram with its ports exchanged. -/
def exchangedBytes (u : UdpDatagram) : List UInt8 := exchangePorts u.bytes

theorem exchangedBytes_spelled (u : UdpDatagram) :
    u.exchangedBytes = byteAt u.bytes 2 :: byteAt u.bytes 3 :: byteAt u.bytes 0 ::
      byteAt u.bytes 1 :: u.bytes.drop 4 := by
  have header := u.header
  have first : cut u.bytes 2 4 = _ := cut_two (show 2 + 1 < u.bytes.length by omega)
  have second : cut u.bytes 0 2 = _ := cut_two (show 0 + 1 < u.bytes.length by omega)
  rw [exchangedBytes, exchangePorts, first, second]
  rfl

theorem byteAt_exchangedBytes (u : UdpDatagram) (i : Nat) :
    byteAt u.exchangedBytes (4 + i) = byteAt u.bytes (4 + i) := by
  rw [u.exchangedBytes_spelled, Nat.add_comm 4 i]
  simp [byteAt, List.getElem?_drop, Nat.add_comm]

def exchanged (u : UdpDatagram) : UdpDatagram where
  bytes := u.exchangedBytes
  header := by
    have header := u.header
    rw [u.exchangedBytes_spelled]
    simp
    omega
  declared := by
    have header := u.header
    have declared := u.declared
    rw [u.byteAt_exchangedBytes 0, u.byteAt_exchangedBytes 1, declared, u.exchangedBytes_spelled]
    simp
    omega

theorem payload_exchanged (u : UdpDatagram) : u.exchanged.payload = u.payload := by
  change u.exchangedBytes.drop 8 = u.bytes.drop 8
  rw [u.exchangedBytes_spelled]
  simp

end UdpDatagram

/- Extraction by role. -/

/-- Fields of IPv6, UDP, CoAP and the generic payload, and the CoAP payload marker. -/
def FieldRef.isOrdinary : FieldRef → Bool
  | .ipv6 _ => true
  | .udp _ => true
  | .coap _ => true
  | .coapOption _ => true
  | .syntheticCoapMarker => true
  | .payload => true
  | _ => false

/-- A UDP packet over IPv6. -/
structure UdpPacket where
  ipv6 : Ipv6Packet
  udp : UdpDatagram
  isUdp : ipv6.nextHeader = 17
  carried : udp.bytes = ipv6.payload

namespace UdpPacket
variable (p : UdpPacket)

theorem long : 44 ≤ p.ipv6.bytes.length := by
  have header := p.udp.header
  have length := p.ipv6.length_payload
  rw [p.carried] at header
  omega

theorem parsed : UdpDatagram.parse p.ipv6.payload = .ok p.udp :=
  UdpDatagram.parse_eq_ok.mpr p.carried

/-- The packet that the other endpoint would send. -/
def exchanged : UdpPacket where
  ipv6 := p.ipv6.exchanged p.long
  udp := p.udp.exchanged
  isUdp := (p.ipv6.nextHeader_exchanged p.long).trans p.isUdp
  carried := by
    have long := p.long
    have whole := p.carried
    have first : cut p.udp.bytes 2 4 = cut p.ipv6.bytes 42 44 := by
      rw [whole, Ipv6Packet.payload, cut_drop]
    have second : cut p.udp.bytes 0 2 = cut p.ipv6.bytes 40 42 := by
      rw [whole, Ipv6Packet.payload, cut_drop]
    have rest : p.udp.bytes.drop 4 = p.ipv6.bytes.drop 44 := by
      rw [whole, Ipv6Packet.payload, List.drop_drop]
    rw [Ipv6Packet.payload_exchanged, ← first, ← second, ← rest]
    rfl

theorem exchanged_exchanged : p.exchanged.exchanged = p := by
  have whole : p.exchanged.exchanged.ipv6.bytes = p.ipv6.bytes := exchange_exchange p.long
  have part : p.exchanged.exchanged.udp.bytes = p.udp.bytes := by
    rw [p.exchanged.exchanged.carried, p.carried]
    exact congrArg (List.drop 40) whole
  obtain ⟨⟨bytes, h₁, h₂, h₃⟩, ⟨segment, h₄, h₅⟩, h₆, h₇⟩ := p
  generalize UdpPacket.exchanged _ = q at whole part
  obtain ⟨⟨bytes', k₁, k₂, k₃⟩, ⟨segment', k₄, k₅⟩, k₆, k₇⟩ := q
  cases whole
  cases part
  rfl

theorem byteAt_exchanged {i : Nat} (early : i < 8) :
    byteAt p.exchanged.ipv6.bytes i = byteAt p.ipv6.bytes i :=
  byteAt_exchange _ early p.long

theorem addressHalf_exchanged (direction : Direction) (role : Role) (start : Nat) (half : start ≤ 8) :
    addressHalf p.exchanged.ipv6 (reverseDirection direction) role start half =
      addressHalf p.ipv6 direction role start half := by
  change cut (roleAddress (p.ipv6.exchanged p.long) _ role) start (start + 8) = _
  rw [Ipv6Packet.roleAddress_exchanged]
  rfl

theorem extractIpv6Field_exchanged (direction : Direction) (name : FieldName) :
    extractIpv6Field p.exchanged.ipv6.bytes (reverseDirection direction) name =
      extractIpv6Field p.ipv6.bytes direction name := by
  have b0 := p.byteAt_exchanged (show 0 < 8 by decide)
  have b1 := p.byteAt_exchanged (show 1 < 8 by decide)
  have b2 := p.byteAt_exchanged (show 2 < 8 by decide)
  have b3 := p.byteAt_exchanged (show 3 < 8 by decide)
  have b4 := p.byteAt_exchanged (show 4 < 8 by decide)
  have b5 := p.byteAt_exchanged (show 5 < 8 by decide)
  have b6 := p.byteAt_exchanged (show 6 < 8 by decide)
  have b7 := p.byteAt_exchanged (show 7 < 8 by decide)
  rw [extractIpv6Field, extractIpv6Field, Ipv6Packet.parse_bytes, Ipv6Packet.parse_bytes, ok_bind,
    ok_bind]
  dsimp only
  split
  · exact congrArg (fun b : UInt8 => FieldValue.fromU64 (b >>> 4).toNat 4) b0
  · change FieldValue.fromU64 (((byteAt _ 0 &&& 0x0f).toNat <<< 4) ||| (byteAt _ 1 >>> 4).toNat) 8 = _
    rw [b0, b1]
    rfl
  · change FieldValue.fromU64 (((byteAt _ 1 &&& 0x0f).toNat <<< 16) ||| ((byteAt _ 2).toNat <<< 8) |||
      (byteAt _ 3).toNat) 20 = _
    rw [b1, b2, b3]
    rfl
  · change FieldValue.fromU64 (value [byteAt _ 4, byteAt _ 5]) 16 = _
    rw [b4, b5]
    rfl
  · exact congrArg (fun b : UInt8 => FieldValue.fromU64 b.toNat 8) b6
  · exact congrArg (fun b : UInt8 => FieldValue.fromU64 b.toNat 8) b7
  · rw [addressHalf_exchanged]
  · rw [addressHalf_exchanged]
  · rw [addressHalf_exchanged]
  · rw [addressHalf_exchanged]
  · rfl

theorem extractUdpField_exchanged (direction : Direction) (name : FieldName) :
    extractUdpField p.exchanged.udp (reverseDirection direction) name =
      extractUdpField p.udp direction name := by
  have spelled : p.exchanged.udp.bytes = _ := p.udp.exchangedBytes_spelled
  have b0 : byteAt p.exchanged.udp.bytes 0 = byteAt p.udp.bytes 2 := by rw [spelled]; rfl
  have b1 : byteAt p.exchanged.udp.bytes 1 = byteAt p.udp.bytes 3 := by rw [spelled]; rfl
  have b2 : byteAt p.exchanged.udp.bytes 2 = byteAt p.udp.bytes 0 := by rw [spelled]; rfl
  have b3 : byteAt p.exchanged.udp.bytes 3 = byteAt p.udp.bytes 1 := by rw [spelled]; rfl
  have b4 : byteAt p.exchanged.udp.bytes 4 = byteAt p.udp.bytes 4 := p.udp.byteAt_exchangedBytes 0
  have b5 : byteAt p.exchanged.udp.bytes 5 = byteAt p.udp.bytes 5 := p.udp.byteAt_exchangedBytes 1
  have b6 : byteAt p.exchanged.udp.bytes 6 = byteAt p.udp.bytes 6 := p.udp.byteAt_exchangedBytes 2
  have b7 : byteAt p.exchanged.udp.bytes 7 = byteAt p.udp.bytes 7 := p.udp.byteAt_exchangedBytes 3
  unfold extractUdpField
  dsimp only
  split
  · cases direction
    · change FieldValue.fromU64 (value [byteAt _ 2, byteAt _ 3]) 16 = _
      rw [b2, b3]
      rfl
    · change FieldValue.fromU64 (value [byteAt _ 0, byteAt _ 1]) 16 = _
      rw [b0, b1]
      rfl
  · cases direction
    · change FieldValue.fromU64 (value [byteAt _ 0, byteAt _ 1]) 16 = _
      rw [b0, b1]
      rfl
    · change FieldValue.fromU64 (value [byteAt _ 2, byteAt _ 3]) 16 = _
      rw [b2, b3]
      rfl
  · change FieldValue.fromU64 (value [byteAt _ 4, byteAt _ 5]) 16 = _
    rw [b4, b5]
    rfl
  · change FieldValue.fromU64 (value [byteAt _ 6, byteAt _ 7]) 16 = _
    rw [b6, b7]
    rfl
  · have payload : p.exchanged.udp.payload = p.udp.payload := p.udp.payload_exchanged
    have length := p.exchanged.udp.length_payload
    have length' := p.udp.length_payload
    rw [payload] at length
    change FieldValue.fromBytes p.exchanged.udp.payload _ = FieldValue.fromBytes p.udp.payload _
    rw [payload, ← length, ← length']
  · rfl

theorem outerCoap_exchanged : outerCoap p.exchanged.ipv6.bytes = outerCoap p.ipv6.bytes := by
  have payload : p.exchanged.udp.payload = p.udp.payload := p.udp.payload_exchanged
  simp only [outerCoap, Ipv6Packet.parse_bytes, ok_bind, parsed, payload]

/-- In the outer packet every ordinary field is read alike. -/
theorem extractField_exchanged {parse : ParseStep} (ordinary : parse.field.isOrdinary)
    (direction : Direction) (bitLen : Option Nat) (coapPresent : Bool) (state : CompressionState) :
    extractField p.exchanged.ipv6.bytes (reverseDirection direction) parse bitLen .outer coapPresent
        state =
      extractField p.ipv6.bytes direction parse bitLen .outer coapPresent state := by
  have payload : p.exchanged.udp.payload = p.udp.payload := p.udp.payload_exchanged
  unfold extractField
  simp only [packetForScope_outer, ok_bind, reduceCtorEq, ↓reduceIte]
  split
  · exact p.extractIpv6Field_exchanged direction _
  · simp only [Ipv6Packet.parse_bytes, ok_bind, parsed, extractUdpField_exchanged]
  · simp only [Ipv6Packet.parse_bytes, ok_bind, parsed, payload]
  · simp only [outerCoap_exchanged]
  · rename_i name field
    rw [field] at ordinary
    cases ordinary
  · rename_i field
    rw [field] at ordinary
    cases ordinary
  · simp only [extractGenericPayload, packetForScope_outer, ok_bind, Ipv6Packet.parse_bytes,
      p.isUdp, p.exchanged.isUdp, ↓reduceIte, parsed, payload]
  · rfl
  · rfl

end UdpPacket

end SchcCore
