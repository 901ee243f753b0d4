import SchcCore.Decompress.Padding
import SchcCore.Packet.WellFormed

/- What a successful decompression yields: the stored fields come from entries of the rule,
   and the packet rebuilt from them is well formed with a checksum that holds. -/
namespace SchcCore
open Outcome FieldStore Stream

/-- Every stored field comes from an active entry that is not computed. -/
def FieldStore.FromEntries (fields : FieldStore) (entries : List FieldRule) : Prop :=
  ∀ stored ∈ fields, ∃ entry ∈ entries, entry.field = stored.1.field ∧ entry.action ≠ .compute

theorem decodeField_fromEntries {entries : List FieldRule} {entry : FieldRule}
    (listed : entry ∈ entries) {direction : Direction} {provider : Option ExternalValueProvider}
    {state next : DecodeState} {r r' : BitReader} (before : state.fields.FromEntries entries)
    (done : decodeField entry direction provider state r = .ok (next, r')) :
    next.fields.FromEntries entries := by
  unfold decodeField at done
  split at done
  · cases done
    exact before
  · split at done
    · cases done
      exact before
    · rename_i decoded
      dsimp only at done
      split at done
      · cases done
      · split at done
        · cases done
        · simp only [decodeEntry, bind_run, bind_eq_ok] at done
          obtain ⟨_, -, ⟨value, _⟩, -, _, -, done⟩ := done
          cases done
          intro stored member
          rcases List.mem_append.mp member with old | new
          · exact before stored old
          · rw [List.mem_singleton] at new
            subst new
            exact ⟨entry, listed, rfl, decoded⟩

theorem decodeFields_fromEntries {rule : Rule} {direction : Direction}
    {provider : Option ExternalValueProvider} {fields : FieldStore} {r r' : BitReader}
    (done : decodeFields rule direction provider r = .ok (fields, r')) :
    fields.FromEntries (rule.active direction) := by
  have each : ∀ (todo : List FieldRule) (state next : DecodeState) (r r' : BitReader),
      (∀ entry ∈ todo, entry ∈ rule.active direction) →
      state.fields.FromEntries (rule.active direction) →
      decodeFieldList direction provider todo state r = .ok (next, r') →
      next.fields.FromEntries (rule.active direction) := by
    intro todo
    induction todo with
    | nil =>
      intro state next r r' _ before done
      cases done
      exact before
    | cons entry todo ih =>
      intro state next r r' inside before done
      rw [decodeFieldList, bind_run, bind_eq_ok] at done
      obtain ⟨⟨middle, r''⟩, first, rest⟩ := done
      have after := decodeField_fromEntries (inside entry List.mem_cons_self) before first
      exact ih middle next r'' r' (fun e later => inside e (List.mem_cons_of_mem _ later)) after rest
  rw [decodeFields, bind_run, bind_eq_ok] at done
  obtain ⟨⟨state, r''⟩, decoded, done⟩ := done
  cases done
  exact each _ _ _ _ _ (fun _ member => member) (fun _ member => absurd member (by
    simp [DecodeState.initial])) decoded

theorem containsFieldScope_mem {fields : FieldStore} {field : FieldRef} {scope : PacketScope}
    (present : fields.containsFieldScope field scope) : ∃ stored ∈ fields, stored.1.field = field := by
  rw [containsFieldScope, Option.isSome_iff_exists] at present
  obtain ⟨value, found⟩ := present
  obtain ⟨stored, member, here⟩ := List.exists_of_findSome?_eq_some found
  split at here
  · rename_i same
    exact ⟨stored, member, same.1⟩
  · cases here

theorem rebuild_wellFormed {direction : Direction} {fields : FieldStore}
    {suffix : Option (List UInt8)} {packet : List UInt8}
    (done : rebuild direction fields suffix = .ok packet) :
    WellFormed packet ∧ Consistent fields .outer packet := by
  cases suffix with
  | none => exact reconstructPacket_wellFormed done
  | some suffix => exact reconstructPacketWithSuffix_wellFormed done

/-- A packet decompressed by a rule with entries parses as IPv6 over UDP or ICMPv6, and its
    outer checksum holds unless the rule transmitted or fixed it: unless an entry of it that
    is not computed put one among the outer fields. -/
theorem decompressed_packet_consistent {ctx : RuleContext} (_loaded : ctx.Loaded)
    (provider : Option ExternalValueProvider) (position : Position) {compressed : List UInt8}
    {bitLen : Nat} {datagram : DecompressedDatagram}
    (done : Decompressor.decompressWithBitLenDetailed ⟨ctx, provider⟩ position compressed bitLen =
      .ok datagram) {rule : Rule} {reader : BitReader}
    (selected : selectRule compressed bitLen ctx.rules.rules = .ok (rule, reader))
    (codes : rule.nature = .compression ∨ rule.nature = .management) (entries : rule.fields ≠ []) :
    ∃ p fields rest, Ipv6Packet.parse datagram.packet = .ok p ∧
      decodeFields rule (inverseDirection position) provider reader = .ok (fields, rest) ∧
      ((p.nextHeader = 17 ∧ ∃ udp, UdpDatagram.parse p.payload = .ok udp) ∨ p.nextHeader = 58) ∧
      ((fields.containsFieldScope (checksumField p.nextHeader) .outer = false ∨
          ∀ entry ∈ rule.active (inverseDirection position),
            entry.field = checksumField p.nextHeader → entry.action = .compute) →
        segmentSum datagram.packet = 65535) := by
  rw [Decompressor.decompressWithBitLenDetailed, selected, ok_bind, bind_eq_ok] at done
  obtain ⟨packet, decoded, done⟩ := done
  cases done
  have coded : decodeCompressed rule (inverseDirection position) provider compressed reader =
      .ok packet := by
    have some : rule.fields.isEmpty = false := by simpa using entries
    rcases codes with nature | nature
    · simpa [Decompressor.decodePacket, nature, some] using decoded
    · simpa [Decompressor.decodePacket, nature, some] using decoded
  simp only [decodeCompressed, bind_eq_ok] at coded
  obtain ⟨⟨fields, rest⟩, read, ⟨suffix, _⟩, -, rebuilt⟩ := coded
  obtain ⟨wellFormed, consistent⟩ := rebuild_wellFormed rebuilt
  obtain ⟨p, parsed⟩ := wellFormed.ipv6
  refine ⟨p, fields, rest, parsed, read, wellFormed.upper p parsed, fun unsent => ?_⟩
  have same : Bytes.byteAt packet 6 = p.nextHeader := by
    rw [Ipv6Packet.nextHeader_eq, Ipv6Packet.parse_eq_ok.mp parsed]
  refine consistent.summed wellFormed.short ?_
  rw [same]
  rcases unsent with absent | computed
  · exact absent
  · by_contra present
    obtain ⟨stored, member, field⟩ := containsFieldScope_mem (by simpa using present)
    obtain ⟨entry, listed, source, decodes⟩ := decodeFields_fromEntries read stored member
    exact decodes (computed entry listed (source.trans field))

/- A rule that fixes a UDP header over IPv6 and leaves length and checksum to be computed. -/

def computedJson (field : String) (bits : Nat) : JsonField :=
  ⟨field, some bits, none, 1, "bi", .null, "ignore", "compute"⟩

def computedEntry (field : FieldRef) (bits entryIndex : Nat) : FieldRule :=
  ⟨field, .fixedBits bits, 1, .bidirectional, .none, .ignore, .compute, entryIndex⟩

def udpFile : RuleFile :=
  ⟨[⟨2, 8, none,
    [fixedJson "fid-ipv6-version" 4 1 "06", fixedJson "fid-ipv6-trafficclass" 8 1 "00",
      fixedJson "fid-ipv6-flowlabel" 20 1 "00", fixedJson "fid-ipv6-nextheader" 8 1 "11",
      fixedJson "fid-ipv6-hoplimit" 8 1 "40", fixedJson "fid-ipv6-devprefix" 64 1 "01",
      fixedJson "fid-ipv6-deviid" 64 1 "02", fixedJson "fid-ipv6-appprefix" 64 1 "03",
      fixedJson "fid-ipv6-appiid" 64 1 "04", fixedJson "fid-udp-dev-port" 16 1 "1633",
      fixedJson "fid-udp-app-port" 16 1 "1634", computedJson "fid-udp-checksum" 16]⟩]⟩

def udpRegistry : SidRegistry :=
  .ofItems [⟨2860, "fid-ipv6-version"⟩, ⟨2861, "fid-ipv6-trafficclass"⟩,
    ⟨2862, "fid-ipv6-flowlabel"⟩, ⟨2863, "fid-ipv6-nextheader"⟩, ⟨2864, "fid-ipv6-hoplimit"⟩,
    ⟨2865, "fid-ipv6-devprefix"⟩, ⟨2866, "fid-ipv6-deviid"⟩, ⟨2867, "fid-ipv6-appprefix"⟩,
    ⟨2868, "fid-ipv6-appiid"⟩, ⟨2870, "fid-udp-dev-port"⟩, ⟨2871, "fid-udp-app-port"⟩,
    ⟨2872, "fid-udp-checksum"⟩, ⟨2880, "di-bidirectional"⟩, ⟨2900, "mo-equal"⟩,
    ⟨2901, "mo-ignore"⟩, ⟨2920, "cda-not-sent"⟩, ⟨2921, "cda-compute"⟩]

def udpRule : Rule :=
  ⟨⟨2, 8⟩,
    [fixedEntry (.ipv6 (.known .ipv6Version)) 4 1 0 [6],
      fixedEntry (.ipv6 (.known .ipv6TrafficClass)) 8 1 1 [0],
      fixedEntry (.ipv6 (.known .ipv6FlowLabel)) 20 1 2 [0],
      fixedEntry (.ipv6 (.known .ipv6NextHeader)) 8 1 3 [17],
      fixedEntry (.ipv6 (.known .ipv6HopLimit)) 8 1 4 [64],
      fixedEntry (.ipv6 (.known .ipv6DevPrefix)) 64 1 5 [1],
      fixedEntry (.ipv6 (.known .ipv6DevIid)) 64 1 6 [2],
      fixedEntry (.ipv6 (.known .ipv6AppPrefix)) 64 1 7 [3],
      fixedEntry (.ipv6 (.known .ipv6AppIid)) 64 1 8 [4],
      fixedEntry (.udp (.known .udpDevPort)) 16 1 9 [0x16, 0x33],
      fixedEntry (.udp (.known .udpAppPort)) 16 1 10 [0x16, 0x34],
      computedEntry (.udp (.known .udpChecksum)) 16 11], .compression⟩

def udpContext : RuleContext := ⟨⟨[udpRule], udpRegistry⟩⟩

theorem udpContext_loaded : udpContext.Loaded := by
  have rules : mapIndexed (loadJsonRule udpRegistry) 0 udpFile.rules = .ok [udpRule] := by
    decide +kernel
  refine .json udpFile udpRegistry ?_
  rw [RuleContext.fromJson, rules]
  rfl

/-- The empty UDP datagram that the rule stands for, sent by the application. -/
def emptyUdpPacket : List UInt8 :=
  [0x60, 0, 0, 0, 0, 8, 17, 64] ++ [0, 0, 0, 0, 0, 0, 0, 3] ++ [0, 0, 0, 0, 0, 0, 0, 4] ++
    [0, 0, 0, 0, 0, 0, 0, 1] ++ [0, 0, 0, 0, 0, 0, 0, 2] ++
    [0x16, 0x34, 0x16, 0x33, 0, 8, 0xd3, 0x6d]

theorem decompressed_packet_consistent_at_empty_udp :
    Decompressor.decompressWithBitLenDetailed ⟨udpContext, none⟩ .device [2] 8 =
        .ok ⟨emptyUdpPacket, ⟨2, 8⟩⟩ ∧
      (∃ p, Ipv6Packet.parse emptyUdpPacket = .ok p) ∧ segmentSum emptyUdpPacket = 65535 := by
  have exact : Decompressor.decompressWithBitLenDetailed ⟨udpContext, none⟩ .device [2] 8 =
      .ok ⟨emptyUdpPacket, ⟨2, 8⟩⟩ := by decide +kernel
  obtain ⟨reader, selected⟩ : ∃ reader, selectRule [2] 8 [udpRule] = .ok (udpRule, reader) :=
    ⟨_, rfl⟩
  obtain ⟨p, fields, rest, parsed, -, -, summed⟩ := decompressed_packet_consistent
    udpContext_loaded none .device exact selected (.inl rfl) (List.cons_ne_nil _ _)
  refine ⟨exact, ⟨p, parsed⟩, summed (.inr ?_)⟩
  have udp : p.nextHeader = 17 := by
    rw [Ipv6Packet.nextHeader_eq, Ipv6Packet.parse_eq_ok.mp parsed]
    rfl
  rw [udp]
  decide

end SchcCore
