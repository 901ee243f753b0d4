import SchcCore.Compress.Sharing
import SchcCore.Decompress.Result
import SchcCore.Roundtrip.Needed

/- The carried suffix starts exactly where the rebuilt header ends, and otherwise not at all: the
   receiver has the packet but for what it computes when no started header is incomplete. -/
namespace SchcCore
open Outcome Bytes BigEndian BitList FieldStore

/-- Where the receiver writes what it computes: the payload length of the IPv6 header, the length
    and the checksum of UDP and the checksum of ICMPv6. -/
def Ipv6Packet.isComputedAt (p : Ipv6Packet) (i : Nat) : Bool :=
  (4 ≤ i && i < 6) || (p.nextHeader = 17 && 44 ≤ i && i < 48) ||
    (p.nextHeader = 58 && 42 ≤ i && i < 44)

/-- The receiver rebuilds a packet of the same length that agrees outside of what it computes. -/
def CarriesExactly (p : Ipv6Packet) (direction : Direction) (sent : FieldStore)
    (suffix : List UInt8) : Prop :=
  ∃ rebuilt : List UInt8, rebuildCarried direction sent suffix = .ok rebuilt ∧
    rebuilt.length = p.bytes.length ∧
    ∀ i, p.isComputedAt i = false → byteAt rebuilt i = byteAt p.bytes i

theorem sentFields_label (direction : Direction) {a b : List FieldRule}
    (same : a.map FieldRule.label = b.map FieldRule.label) (fields : FieldStore) :
    sentFields direction a fields = sentFields direction b fields := by
  induction a generalizing b fields with
  | nil =>
    cases b with
    | nil => rfl
    | cons entry entries => cases same
  | cons entry entries ih =>
    cases b with
    | nil => cases same
    | cons other others =>
      rw [List.map_cons, List.map_cons, List.cons.injEq] at same
      obtain ⟨here, rest⟩ := same
      have turned : entry.direction = other.direction := (congrArg FieldRule.direction here :)
      have named : entry.field = other.field := (congrArg FieldRule.field here :)
      have acted : entry.action = other.action := (congrArg FieldRule.action here :)
      unfold sentFields
      rw [turned, named, acted, ih rest]
      split
      · rfl
      · cases fields with
        | nil => rfl
        | cons stored fields =>
          dsimp only
          rw [ih rest]

theorem computed_lent {rule : Rule} (valid : rule.Valid) (rules : List Rule) :
    ∀ entry ∈ rule.lent rules, entry.action = .compute → isComputeSupported entry.field := by
  intro entry member computed
  obtain ⟨k, inside, rfl⟩ := List.mem_mapIdx.mp member
  exact (valid.fields _ (List.getElem_mem inside)).compute computed

/-- What the traversal holds where a rule ends, and what is sent of it. -/
theorem Compressor.ReachesEnd.gathered {ctx : RuleContext} (loaded : ctx.Loaded) {c : Compressor}
    (made : Compressor.new ctx = .ok c) {rule : Rule} (member : rule ∈ ctx.rules.rules)
    {p : Ipv6Packet} {direction : Direction} {state : CompressionState}
    (ended : c.ReachesEnd p.bytes direction rule state) :
    Gathered p direction state ∧ Elides state.fields (sentFields direction rule.fields state.fields) := by
  obtain ⟨context, built⟩ := Compressor.new_built made
  rw [← context] at built member
  have valid := loaded.valid
  rw [← context] at valid
  have ran := (Compressor.reachesEnd_iff (fun rule member => (valid.rules rule member).id) built
    member state).mp ended
  obtain ⟨added, grown, elides⟩ :=
    run_elides (computed_lent (valid.rules rule member) c.context.rules.rules) ran
  rw [sentFields_label direction (Rule.map_label_lent c.context.rules.rules rule)] at elides
  have own : state.fields = added := grown
  rw [own]
  exact ⟨(Gathered.initial p direction).run ran, elides⟩

/-- What the receiver rebuilds agrees with the packet wherever it computes nothing. -/
theorem Covers.exact {p : Ipv6Packet} {sent : FieldStore} (covers : Covers p sent) :
    (p.recomputed sent .outer).length = p.bytes.length ∧
      ∀ i, p.isComputedAt i = false → byteAt (p.recomputed sent .outer) i = byteAt p.bytes i := by
  have udpExact : ∀ {u : UdpDatagram}, p.nextHeader = 17 → UdpDatagram.parse p.payload = .ok u →
      (p.recomputed sent .outer).length = p.bytes.length ∧
        ∀ i, p.isComputedAt i = false → byteAt (p.recomputed sent .outer) i = byteAt p.bytes i := by
    intro u udp parsed
    have room := hasChecksum_udp udp parsed
    refine ⟨Ipv6Packet.length_recomputed room sent .outer, fun i plain => ?_⟩
    apply Ipv6Packet.byteAt_recomputed room
    rw [checksumStart, if_pos udp]
    simp only [Ipv6Packet.isComputedAt, udp, decide_true, Bool.true_and, Bool.or_eq_false_iff,
      Bool.and_eq_false_iff, decide_eq_false_iff_not] at plain
    omega
  have icmpv6Exact : ∀ {m : Icmpv6Message}, p.nextHeader = 58 →
      Icmpv6Message.parse p.payload = .ok m →
      (p.recomputed sent .outer).length = p.bytes.length ∧
        ∀ i, p.isComputedAt i = false → byteAt (p.recomputed sent .outer) i = byteAt p.bytes i := by
    intro m icmpv6 parsed
    have room := hasChecksum_icmpv6 icmpv6 parsed
    have other : ¬ p.nextHeader = 17 := by
      rw [icmpv6]
      decide
    refine ⟨Ipv6Packet.length_recomputed room sent .outer, fun i plain => ?_⟩
    apply Ipv6Packet.byteAt_recomputed room
    rw [checksumStart, if_neg other]
    simp only [Ipv6Packet.isComputedAt, icmpv6, decide_true, Bool.true_and, Bool.or_eq_false_iff,
      Bool.and_eq_false_iff, decide_eq_false_iff_not] at plain
    omega
  cases covers with
  | udp udp parsed _ _ => exact udpExact udp parsed
  | coap udp parsed _ _ => exact udpExact udp parsed
  | icmpv6 icmpv6 parsed _ _ => exact icmpv6Exact icmpv6 parsed
  | icmpv6Error icmpv6 parsed _ _ _ _ _ => exact icmpv6Exact icmpv6 parsed

/-- Where a rule ends, the carried suffix completes what the receiver rebuilds from the sent
    fields exactly when no started header is incomplete. -/
theorem carried_suffix_exact_iff {ctx : RuleContext} (loaded : ctx.Loaded) {c : Compressor}
    (made : Compressor.new ctx = .ok c) {rule : Rule} (member : rule ∈ ctx.rules.rules)
    {p : Ipv6Packet} {direction : Direction} {state : CompressionState}
    (ended : c.ReachesEnd p.bytes direction rule state) {suffix : List UInt8}
    (carried : carryThroughSuffix p.bytes state = .ok (some suffix)) :
    CarriesExactly p direction (sentFields direction rule.fields state.fields) suffix ↔
      Covers p (sentFields direction rule.fields state.fields) := by
  obtain ⟨gathered, elides⟩ := ended.gathered loaded made member
  constructor
  · rintro ⟨rebuilt, done, length, -⟩
    exact .of_rebuilt gathered elides carried done length
  · intro covers
    exact ⟨_, covers.rebuilds gathered elides carried, covers.exact⟩

/-- A UDP datagram from the application with two bytes of payload. -/
def helloPacket : Ipv6Packet where
  bytes := [0x60, 0, 0, 0, 0, 10, 17, 64] ++ [0, 0, 0, 0, 0, 0, 0, 3] ++
    [0, 0, 0, 0, 0, 0, 0, 4] ++ [0, 0, 0, 0, 0, 0, 0, 1] ++ [0, 0, 0, 0, 0, 0, 0, 2] ++
    [0x16, 0x34, 0x16, 0x33, 0, 10, 0x6b, 0x00] ++ [0x68, 0x69]
  header := by decide
  version := by decide
  declared := by decide

def helloDatagram : UdpDatagram where
  bytes := helloPacket.payload
  header := by decide
  declared := by decide

/-- What the traversal holds at the leaf of the UDP rule. -/
def helloState : CompressionState :=
  (runEntries helloPacket.bytes .down udpRule.fields .initial).toOption.join.getD .initial

theorem carried_suffix_exact_at_hello :
    CarriesExactly helloPacket .down (sentFields .down udpRule.fields helloState.fields)
      [0x68, 0x69] := by
  obtain ⟨c, made⟩ := Compressor.new_total udpContext
  have member : udpRule ∈ udpContext.rules.rules := List.mem_cons_self
  have ran : runEntries helloPacket.bytes .down udpRule.fields .initial = .ok (some helloState) := by
    decide +kernel
  have ended : c.ReachesEnd helloPacket.bytes .down udpRule helloState := by
    apply (reachesEnd_shared udpContext_loaded member made helloPacket.bytes .down helloState).mpr
    exact (congrArg (runEntries helloPacket.bytes .down · .initial) udpRule.lent_alone).trans ran
  refine (carried_suffix_exact_iff udpContext_loaded made member ended (by decide +kernel)).mpr ?_
  exact .udp (by decide) (UdpDatagram.parse_bytes helloDatagram) (by decide +kernel)
    (by decide +kernel)

/-- The IPv6 header whose traffic class and hop limit were stored. -/
def hopHeader : Ipv6Packet where
  bytes := hopPacket
  header := by decide
  version := by decide
  declared := by decide

/-- The rule stands for two fields of the header. The sender takes the whole header for covered and
    carries an empty suffix, and the receiver has no header to rebuild. -/
theorem partial_header_carries_nothing :
    ∃ c, hopContext.Loaded ∧ hopRule ∈ hopContext.rules.rules ∧
      Compressor.new hopContext = .ok c ∧ c.ReachesEnd hopHeader.bytes .up hopRule hopState ∧
      reconstructPacket .up hopState.fields ≠ .ok hopHeader.bytes ∧
      carryThroughSuffix hopHeader.bytes hopState = .ok (some []) ∧
      leafCandidate hopHeader.bytes .up (some hopRule) 0 hopRule.id hopState =
        .ok (some ⟨0, ⟨[0x05, 0xa4, 0x00], 20, hopRule.id⟩⟩) ∧
      ¬ CarriesExactly hopHeader .up (sentFields .up hopRule.fields hopState.fields) [] := by
  obtain ⟨c, made⟩ := Compressor.new_total hopContext
  have loaded : hopContext.Loaded := .json _ _ hopContext_fromJson
  have member : hopRule ∈ hopContext.rules.rules := List.mem_cons_self
  have ran : runEntries hopPacket .up hopRule.fields .initial = .ok (some hopState) := by
    decide +kernel
  have ended : c.ReachesEnd hopHeader.bytes .up hopRule hopState := by
    apply (reachesEnd_shared loaded member made hopHeader.bytes .up hopState).mpr
    exact (congrArg (runEntries hopPacket .up · .initial) hopRule.lent_alone).trans ran
  refine ⟨c, loaded, member, made, ended, by decide +kernel, by decide +kernel, by decide +kernel, ?_⟩
  rintro ⟨rebuilt, done, -⟩
  have fails : (rebuildCarried .up (sentFields .up hopRule.fields hopState.fields) []).toOption =
      none := by decide +kernel
  rw [done] at fails
  cases fails

end SchcCore
