import SchcCore.Roundtrip.Restore

/- Reconstruction after extraction. A query names a field in a scope; the store of what
   extraction answers to the queries of a packet's shape rebuilds the packet. -/
namespace SchcCore
open Outcome Bytes BigEndian BitList FieldStore

/-- A field to be extracted under a key, with its length where the rule knows it. -/
structure Query where
  key : FieldKey
  bitLen : Option Nat

def Query.step (q : Query) : ParseStep :=
  ⟨q.key.field, q.bitLen.elim .variableBytes .fixedBits, q.key.fieldPosition, q.key.entryIndex⟩

def extractQuery (packet : List UInt8) (direction : Direction) (coapPresent : Bool)
    (state : CompressionState) (q : Query) : Result FieldValue :=
  extractField packet direction q.step q.bitLen q.key.scope coapPresent state

/-- The store of the answers, in the order of the queries. -/
def extractQueries (packet : List UInt8) (direction : Direction) (coapPresent : Bool)
    (state : CompressionState) : List Query → Result FieldStore
  | [] => .ok []
  | q :: queries => do
      let value ← extractQuery packet direction coapPresent state q
      let fields ← extractQueries packet direction coapPresent state queries
      .ok ((q.key, value) :: fields)

/-- The first field of its kind in a scope. -/
def PacketScope.query (scope : PacketScope) (field : FieldRef) : Query :=
  ⟨⟨field, if scope = .outer then 1 else 2, 0, scope⟩, none⟩

/-- A direction as the packet of a scope has it. -/
def PacketScope.orient : PacketScope → Direction → Direction
  | .outer, direction => direction
  | .embedded, direction => reverseDirection direction

/- Queries by protocol. -/

def ipv6Queries (scope : PacketScope) : List Query :=
  [.ipv6Version, .ipv6TrafficClass, .ipv6FlowLabel, .ipv6NextHeader, .ipv6HopLimit, .ipv6DevPrefix,
    .ipv6DevIid, .ipv6AppPrefix, .ipv6AppIid].map (fun name => scope.query (.ipv6 (.known name)))

def udpQueries (scope : PacketScope) : List Query :=
  [.udpDevPort, .udpAppPort].map (fun name => scope.query (.udp (.known name)))

/-- The options in wire order, each at its place among those of its number. -/
def optionQueries (before : List CoapOption) : List CoapOption → List Query
  | [] => []
  | option :: options =>
      ⟨⟨.coapOption option.number.toNat,
          (before.filter (fun o => o.number.toNat = option.number.toNat)).length + 1, 0, .outer⟩,
        none⟩ :: optionQueries (before ++ [option]) options

def coapQueries (m : CoapMessage) : List Query :=
  [.coapVersion, .coapType, .coapTkl, .coapCode, .coapMid].map
      (fun name => PacketScope.outer.query (.coap (.known name))) ++
    [⟨⟨.coap (.known .coapToken), 1, 0, .outer⟩, some (m.token.length * 8)⟩] ++
    optionQueries [] m.options

/-- Type, code, and the second word where the type gives it a field of its own. -/
def icmpv6Queries (messageType : UInt8) : List Query :=
  [PacketScope.outer.query (.icmpv6 (.known .icmpv6Type)),
      PacketScope.outer.query (.icmpv6 (.known .icmpv6Code))] ++
    (if isEchoType messageType then
      [PacketScope.outer.query (.icmpv6 (.known .icmpv6Identifier)),
        PacketScope.outer.query (.icmpv6 (.known .icmpv6Sequence))]
    else if hasIcmpv6UnusedField messageType then [⟨⟨.unused, 1, 0, .outer⟩, some 32⟩]
    else if messageType = 2 then [PacketScope.outer.query (.icmpv6 (.known .icmpv6Mtu))]
    else if messageType = 4 then [PacketScope.outer.query (.icmpv6 (.known .icmpv6Pointer))]
    else [])

/-- The packets that extraction describes whole, with the queries that describe them and
    whether the payload is that of a CoAP message. -/
inductive Described : List UInt8 → Bool → List Query → Prop
  | udp {p : Ipv6Packet} {u : UdpDatagram} : p.nextHeader = 17 → p.Checksummed →
      UdpDatagram.parse p.payload = .ok u →
      Described p.bytes false
        (ipv6Queries .outer ++ udpQueries .outer ++ [PacketScope.outer.query .payload])
  | coap {p : Ipv6Packet} {u : UdpDatagram} {m : CoapMessage} : p.nextHeader = 17 →
      p.Checksummed → UdpDatagram.parse p.payload = .ok u → CoapMessage.parse u.payload = .ok m →
      Described p.bytes true (ipv6Queries .outer ++ udpQueries .outer ++ coapQueries m ++
        [PacketScope.outer.query .payload])
  | icmpv6 {p : Ipv6Packet} {m : Icmpv6Message} : p.nextHeader = 58 → p.Checksummed →
      Icmpv6Message.parse p.payload = .ok m → isIcmpv6ErrorType m.messageType = false →
      Described p.bytes false (ipv6Queries .outer ++ icmpv6Queries m.messageType ++
        [PacketScope.outer.query .payload])
  | icmpv6Error {p q : Ipv6Packet} {m : Icmpv6Message} {u : UdpDatagram} : p.nextHeader = 58 →
      p.Checksummed → Icmpv6Message.parse p.payload = .ok m → isIcmpv6ErrorType m.messageType →
      Ipv6Packet.parse m.payload = .ok q → q.nextHeader = 17 → q.Checksummed →
      UdpDatagram.parse q.payload = .ok u →
      Described p.bytes false (ipv6Queries .outer ++ icmpv6Queries m.messageType ++
        (ipv6Queries .embedded ++ udpQueries .embedded ++ [PacketScope.embedded.query .payload]))

/- Answers. -/

/-- Queries with their answers. -/
abbrev Answers := List (Query × FieldValue)

def Answers.queries (answers : Answers) : List Query := answers.map Prod.fst

def Answers.store (answers : Answers) : FieldStore := answers.map (fun a => (a.1.key, a.2))

/-- Extraction gives these answers. -/
def Answered (packet : List UInt8) (direction : Direction) (coapPresent : Bool)
    (state : CompressionState) (answers : Answers) : Prop :=
  ∀ a ∈ answers, extractQuery packet direction coapPresent state a.1 = .ok a.2

theorem queries_append (a b : Answers) : Answers.queries (a ++ b) = a.queries ++ b.queries :=
  List.map_append

section
variable {packet : List UInt8} {direction : Direction} {coapPresent : Bool}
  {state : CompressionState}

theorem Answered.append {a b : Answers} (first : Answered packet direction coapPresent state a)
    (second : Answered packet direction coapPresent state b) :
    Answered packet direction coapPresent state (a ++ b) := by
  intro answer member
  rcases List.mem_append.mp member with left | right
  · exact first answer left
  · exact second answer right

theorem Answered.extractQueries {answers : Answers}
    (answered : Answered packet direction coapPresent state answers) :
    extractQueries packet direction coapPresent state answers.queries = .ok answers.store := by
  induction answers with
  | nil => rfl
  | cons a answers ih =>
    have here := answered a List.mem_cons_self
    have rest := ih fun b member => answered b (List.mem_cons_of_mem a member)
    change (extractQuery packet direction coapPresent state a.1 >>= fun value =>
      SchcCore.extractQueries packet direction coapPresent state (Answers.queries answers) >>=
        fun fields => Except.ok ((a.1.key, value) :: fields)) = _
    rw [here, ok_bind, rest, ok_bind]
    rfl

end

def ipv6Answers (p : Ipv6Packet) (direction : Direction) (scope : PacketScope) : Answers :=
  [(scope.query (.ipv6 (.known .ipv6Version)), word 4 6),
    (scope.query (.ipv6 (.known .ipv6TrafficClass)), word 8 p.trafficClass),
    (scope.query (.ipv6 (.known .ipv6FlowLabel)), word 20 p.flowLabel),
    (scope.query (.ipv6 (.known .ipv6NextHeader)), word 8 p.nextHeader.toNat),
    (scope.query (.ipv6 (.known .ipv6HopLimit)), word 8 (byteAt p.bytes 7).toNat),
    (scope.query (.ipv6 (.known .ipv6DevPrefix)),
      word 64 (value (cut (roleAddress p direction .device) 0 8))),
    (scope.query (.ipv6 (.known .ipv6DevIid)),
      word 64 (value (cut (roleAddress p direction .device) 8 16))),
    (scope.query (.ipv6 (.known .ipv6AppPrefix)),
      word 64 (value (cut (roleAddress p direction .application) 0 8))),
    (scope.query (.ipv6 (.known .ipv6AppIid)),
      word 64 (value (cut (roleAddress p direction .application) 8 16)))]

def udpAnswers (u : UdpDatagram) (direction : Direction) (scope : PacketScope) : Answers :=
  [(scope.query (.udp (.known .udpDevPort)), word 16 (u.devPort direction)),
    (scope.query (.udp (.known .udpAppPort)), word 16 (u.appPort direction))]

def payloadAnswer (payload : List UInt8) (scope : PacketScope) : Answers :=
  [(scope.query .payload, .ofBits (ofBytes payload))]

section
variable {packet : List UInt8} {direction : Direction} {coapPresent : Bool}
  {state : CompressionState} {scope : PacketScope} {p : Ipv6Packet}

theorem orient_eq (scope : PacketScope) (direction : Direction) :
    (if scope = .embedded then reverseDirection direction else direction) =
      scope.orient direction := by
  cases scope <;> rfl

theorem extractQuery_ipv6 (located : packetForScope packet scope = .ok p.bytes) (name : KnownName) :
    extractQuery packet direction coapPresent state (scope.query (.ipv6 (.known name))) =
      extractIpv6Field p.bytes (scope.orient direction) (.known name) := by
  rw [extractQuery, extractField]
  change (packetForScope packet scope >>= _) = _
  rw [located, ok_bind, orient_eq]
  rfl

theorem answered_ipv6 (located : packetForScope packet scope = .ok p.bytes) :
    Answered packet direction coapPresent state
      (ipv6Answers p (scope.orient direction) scope) := by
  have version : (byteAt p.bytes 0 >>> 4).toNat = 6 := by rw [p.version]; rfl
  have halves : ∀ role, value (cut (roleAddress p (scope.orient direction) role) 0 8) < 2 ^ 64 ∧
      value (cut (roleAddress p (scope.orient direction) role) 8 16) < 2 ^ 64 := by
    intro role
    have length := length_roleAddress p (scope.orient direction) role
    exact ⟨half_lt length rfl (by decide), half_lt length rfl (by decide)⟩
  intro a member
  simp only [ipv6Answers, List.mem_cons, List.not_mem_nil, or_false] at member
  rcases member with rfl | rfl | rfl | rfl | rfl | rfl | rfl | rfl | rfl
  · rw [extractQuery_ipv6 located, extractIpv6Field, Ipv6Packet.parse_bytes, ok_bind]
    change FieldValue.fromU64 (byteAt p.bytes 0 >>> 4).toNat 4 = _
    rw [version]
    exact FieldValue.fromU64_eq (by decide) (by decide)
  · rw [extractQuery_ipv6 located, extractIpv6Field, Ipv6Packet.parse_bytes, ok_bind]
    exact FieldValue.fromU64_eq (by decide) p.trafficClass_lt
  · rw [extractQuery_ipv6 located, extractIpv6Field, Ipv6Packet.parse_bytes, ok_bind]
    exact FieldValue.fromU64_eq (by decide) p.flowLabel_lt
  · rw [extractQuery_ipv6 located, extractIpv6Field, Ipv6Packet.parse_bytes, ok_bind]
    exact FieldValue.fromU64_eq (by decide) p.nextHeader.toNat_lt
  · rw [extractQuery_ipv6 located, extractIpv6Field, Ipv6Packet.parse_bytes, ok_bind]
    exact FieldValue.fromU64_eq (by decide) (byteAt p.bytes 7).toNat_lt
  · rw [extractQuery_ipv6 located, extractIpv6Field, Ipv6Packet.parse_bytes, ok_bind]
    exact FieldValue.fromU64_eq (by decide) (halves .device).1
  · rw [extractQuery_ipv6 located, extractIpv6Field, Ipv6Packet.parse_bytes, ok_bind]
    exact FieldValue.fromU64_eq (by decide) (halves .device).2
  · rw [extractQuery_ipv6 located, extractIpv6Field, Ipv6Packet.parse_bytes, ok_bind]
    exact FieldValue.fromU64_eq (by decide) (halves .application).1
  · rw [extractQuery_ipv6 located, extractIpv6Field, Ipv6Packet.parse_bytes, ok_bind]
    exact FieldValue.fromU64_eq (by decide) (halves .application).2

theorem answered_udp (located : packetForScope packet scope = .ok p.bytes) {u : UdpDatagram}
    (parsed : UdpDatagram.parse p.payload = .ok u) :
    Answered packet direction coapPresent state (udpAnswers u (scope.orient direction) scope) := by
  have extracted : ∀ name, extractQuery packet direction coapPresent state
      (scope.query (.udp (.known name))) = extractUdpField u (scope.orient direction) (.known name) := by
    intro name
    rw [extractQuery, extractField]
    change (packetForScope packet scope >>= _) = _
    rw [located, ok_bind, orient_eq]
    change (Ipv6Packet.parse p.bytes >>= _) = _
    rw [Ipv6Packet.parse_bytes, ok_bind, parsed, ok_bind]
    rfl
  have fits := u.ports_lt (scope.orient direction)
  intro a member
  simp only [udpAnswers, List.mem_cons, List.not_mem_nil, or_false] at member
  rcases member with rfl | rfl
  · rw [extracted]
    cases oriented : scope.orient direction with
    | up =>
      change FieldValue.fromU64 _ 16 = _
      exact FieldValue.fromU64_eq (by decide) (by rw [oriented] at fits; exact fits.1)
    | down =>
      change FieldValue.fromU64 _ 16 = _
      exact FieldValue.fromU64_eq (by decide) (by rw [oriented] at fits; exact fits.1)
  · rw [extracted]
    cases oriented : scope.orient direction with
    | up =>
      change FieldValue.fromU64 _ 16 = _
      exact FieldValue.fromU64_eq (by decide) (by rw [oriented] at fits; exact fits.2)
    | down =>
      change FieldValue.fromU64 _ 16 = _
      exact FieldValue.fromU64_eq (by decide) (by rw [oriented] at fits; exact fits.2)

theorem answered_payload_udp (located : packetForScope packet scope = .ok p.bytes)
    (udp : p.nextHeader = 17) {u : UdpDatagram} (parsed : UdpDatagram.parse p.payload = .ok u) :
    Answered packet direction false state (payloadAnswer u.payload scope) := by
  intro a member
  rw [payloadAnswer, List.mem_singleton] at member
  subst member
  have whole := FieldValue.fromBytes_whole u.payload
  rw [Nat.mul_comm] at whole
  rw [extractQuery, extractField]
  change (packetForScope packet scope >>= _) = _
  rw [located, ok_bind]
  change extractGenericPayload p.bytes _ false = _
  rw [extractGenericPayload, packetForScope_outer, ok_bind, Ipv6Packet.parse_bytes, ok_bind,
    if_pos udp, parsed, ok_bind]
  exact whole

theorem answered_payload_coap (located : packetForScope packet .outer = .ok p.bytes)
    (udp : p.nextHeader = 17) {u : UdpDatagram} (parsed : UdpDatagram.parse p.payload = .ok u)
    {m : CoapMessage} (coap : CoapMessage.parse u.payload = .ok m) :
    Answered packet direction true state (payloadAnswer m.payload .outer) := by
  intro a member
  rw [payloadAnswer, List.mem_singleton] at member
  subst member
  have whole := FieldValue.fromBytes_whole m.payload
  rw [Nat.mul_comm] at whole
  rw [extractQuery, extractField]
  change (packetForScope packet .outer >>= _) = _
  rw [located, ok_bind]
  change extractGenericPayload p.bytes _ true = _
  rw [extractGenericPayload, packetForScope_outer, ok_bind, Ipv6Packet.parse_bytes, ok_bind,
    if_pos udp, parsed, ok_bind, if_pos rfl, coap, ok_bind]
  exact whole

theorem answered_payload_icmpv6 (located : packetForScope packet .outer = .ok p.bytes)
    (icmpv6 : p.nextHeader = 58) {m : Icmpv6Message}
    (parsed : Icmpv6Message.parse p.payload = .ok m) :
    Answered packet direction coapPresent state (payloadAnswer m.payload .outer) := by
  intro a member
  rw [payloadAnswer, List.mem_singleton] at member
  subst member
  have whole := FieldValue.fromBytes_whole m.payload
  rw [Nat.mul_comm] at whole
  have other : ¬ p.nextHeader = 17 := by rw [icmpv6]; decide
  rw [extractQuery, extractField]
  change (packetForScope packet .outer >>= _) = _
  rw [located, ok_bind]
  change extractGenericPayload p.bytes _ coapPresent = _
  rw [extractGenericPayload, packetForScope_outer, ok_bind, Ipv6Packet.parse_bytes, ok_bind,
    if_neg other, if_pos icmpv6, parsed, ok_bind]
  exact whole

/- CoAP answers. -/

def optionAnswers (before : List CoapOption) : List CoapOption → Answers
  | [] => []
  | option :: options =>
      (⟨⟨.coapOption option.number.toNat,
          (before.filter (fun o => o.number.toNat = option.number.toNat)).length + 1, 0, .outer⟩,
        none⟩, .ofBits (ofBytes option.value)) :: optionAnswers (before ++ [option]) options

theorem queries_optionAnswers (before options : List CoapOption) :
    (optionAnswers before options).queries = optionQueries before options := by
  induction options generalizing before with
  | nil => rfl
  | cons option options ih =>
    have rest := ih (before ++ [option])
    simp only [Answers.queries] at rest
    simp only [Answers.queries, optionAnswers, optionQueries, List.map_cons, rest]

def coapHeaderAnswers (m : CoapMessage) : Answers :=
  [(PacketScope.outer.query (.coap (.known .coapVersion)), word 2 m.version.toNat),
    (PacketScope.outer.query (.coap (.known .coapType)), word 2 m.messageType.toNat),
    (PacketScope.outer.query (.coap (.known .coapTkl)), word 4 m.token.length),
    (PacketScope.outer.query (.coap (.known .coapCode)), word 8 m.code.toNat),
    (PacketScope.outer.query (.coap (.known .coapMid)), word 16 m.messageId.toNat),
    (⟨⟨.coap (.known .coapToken), 1, 0, .outer⟩, some (m.token.length * 8)⟩,
      .ofBits (ofBytes m.token))]

def coapAnswers (m : CoapMessage) : Answers := coapHeaderAnswers m ++ optionAnswers [] m.options

theorem queries_coapAnswers (m : CoapMessage) : (coapAnswers m).queries = coapQueries m := by
  rw [coapAnswers, queries_append, queries_optionAnswers]
  rfl

/-- The option at a place in wire order is found by its number and its occurrence. -/
theorem selectCoapOption_place {m : CoapMessage} {before after : List CoapOption}
    {option : CoapOption} (split : m.options = before ++ option :: after) :
    selectCoapOption m option.number.toNat
        (before.filter (fun o => o.number.toNat = option.number.toNat)).length =
      .ok (before.length, option) := by
  have count : ((before.zipIdx).filter
      (fun entry => entry.1.number.toNat = option.number.toNat)).length =
      (before.filter (fun o => o.number.toNat = option.number.toNat)).length := by
    have kept : before = before.zipIdx.map Prod.fst := by simp
    conv_rhs => rw [kept, List.filter_map, List.length_map]
    rfl
  have found : ((m.options.zipIdx).filter
      (fun entry => entry.1.number.toNat = option.number.toNat))[(before.filter
        (fun o => o.number.toNat = option.number.toNat)).length]? = some (option, before.length) := by
    rw [split, List.zipIdx_append, List.filter_append,
      List.getElem?_append_right (by rw [count]), count, Nat.sub_self]
    simp
  simp only [selectCoapOption, found]

theorem answered_options (located : packetForScope packet .outer = .ok p.bytes)
    {u : UdpDatagram} (parsed : UdpDatagram.parse p.payload = .ok u) {m : CoapMessage}
    (coap : CoapMessage.parse u.payload = .ok m) {before options : List CoapOption}
    (split : m.options = before ++ options) :
    Answered packet direction coapPresent state (optionAnswers before options) := by
  induction options generalizing before with
  | nil =>
    intro a member
    cases member
  | cons option options ih =>
    intro a member
    rcases List.mem_cons.mp member with rfl | later
    · have whole := FieldValue.fromBytes_whole option.value
      rw [Nat.mul_comm] at whole
      have message : outerCoap p.bytes = .ok m := by
        rw [outerCoap, Ipv6Packet.parse_bytes, ok_bind, parsed, ok_bind, coap]
      rw [extractQuery, extractField]
      change (packetForScope packet .outer >>= _) = _
      rw [located, ok_bind]
      change (outerCoap p.bytes >>= fun found =>
        selectCoapOption found option.number.toNat
            (before.filter (fun o => o.number.toNat = option.number.toNat)).length >>=
          fun selected => FieldValue.fromBytes selected.2.value (selected.2.value.length * 8)) = _
      rw [message, ok_bind, selectCoapOption_place split, ok_bind]
      exact whole
    · exact ih (by simpa using split) a later

theorem answered_coap (located : packetForScope packet .outer = .ok p.bytes)
    {u : UdpDatagram} (parsed : UdpDatagram.parse p.payload = .ok u) {m : CoapMessage}
    (coap : CoapMessage.parse u.payload = .ok m) :
    Answered packet direction coapPresent state (coapAnswers m) := by
  have header := CoapMessage.header_of_parse coap
  have extracted : ∀ q : Query, ∀ name : KnownName, q.key.field = .coap (.known name) →
      q.key.scope = .outer → extractQuery packet direction coapPresent state q =
        extractCoapField u.payload (.known name) q.bitLen := by
    rintro ⟨⟨field, position, index, scope⟩, bitLen⟩ name rfl rfl
    rw [extractQuery, extractField]
    change (packetForScope packet .outer >>= _) = _
    rw [located, ok_bind]
    change (Ipv6Packet.parse p.bytes >>= _) = _
    rw [Ipv6Packet.parse_bytes, ok_bind, parsed, ok_bind]
  have long := header.long
  have version : m.version.toNat < 2 ^ 2 := by
    rw [header.version]
    revert long
    generalize byteAt u.payload 0 = b
    intro _
    revert b
    apply forall_byte
    decide +kernel
  have messageType : m.messageType.toNat < 2 ^ 2 := by
    rw [header.messageType]
    generalize byteAt u.payload 0 = b
    revert b
    apply forall_byte
    decide +kernel
  have short := header.tokenShort
  apply Answered.append
  · intro a member
    simp only [coapHeaderAnswers, List.mem_cons, List.not_mem_nil, or_false] at member
    rcases member with rfl | rfl | rfl | rfl | rfl | rfl
    · rw [extracted _ .coapVersion rfl rfl, extractCoapField, coap, ok_bind]
      dsimp only
      rw [index_eq (by omega), ok_bind, ← header.version]
      exact FieldValue.fromU64_eq (by decide) version
    · rw [extracted _ .coapType rfl rfl, extractCoapField, coap, ok_bind]
      dsimp only
      rw [index_eq (by omega), ok_bind, ← header.messageType]
      exact FieldValue.fromU64_eq (by decide) messageType
    · rw [extracted _ .coapTkl rfl rfl, extractCoapField, coap, ok_bind]
      dsimp only
      rw [index_eq (by omega), ok_bind, ← header.tokenLength]
      exact FieldValue.fromU64_eq (by decide) (by omega)
    · rw [extracted _ .coapCode rfl rfl, extractCoapField, coap, ok_bind]
      dsimp only
      rw [index_eq (by omega), ok_bind, ← header.code]
      exact FieldValue.fromU64_eq (by decide) m.code.toNat_lt
    · rw [extracted _ .coapMid rfl rfl, extractCoapField, coap, ok_bind]
      dsimp only
      rw [index_eq (by omega), ok_bind, index_eq (by omega), ok_bind, ← header.messageId]
      exact FieldValue.fromU64_eq (by decide) m.messageId.toNat_lt
    · have aligned : ¬ m.token.length * 8 % 8 ≠ 0 := by omega
      have counted : m.token.length * 8 / 8 = m.token.length := by omega
      have inside : 4 + m.token.length ≤ u.payload.length := long
      have whole := bytesAsValue_whole m.token
      have fits : ¬ m.token.length > 8 := by omega
      rw [extracted _ .coapToken rfl rfl, extractCoapField, coap, ok_bind]
      dsimp only
      simp only [extractCoapToken]
      rw [if_neg aligned, counted, index_eq (by omega), ok_bind, ← header.tokenLength,
        if_neg (fun differ => differ rfl), if_neg fits, slice_eq (by omega) inside, ok_bind,
        ← header.token]
      exact whole
  · exact answered_options located parsed coap rfl

/- ICMPv6 answers. -/

/-- The second word, where the type gives it fields of its own. -/
def secondWordAnswers (m : Icmpv6Message) : Answers :=
  if isEchoType m.messageType then
    [(PacketScope.outer.query (.icmpv6 (.known .icmpv6Identifier)),
        word 16 (value [byteAt m.bytes 4, byteAt m.bytes 5])),
      (PacketScope.outer.query (.icmpv6 (.known .icmpv6Sequence)),
        word 16 (value [byteAt m.bytes 6, byteAt m.bytes 7]))]
  else if hasIcmpv6UnusedField m.messageType then
    [(⟨⟨.unused, 1, 0, .outer⟩, some 32⟩, .ofBits (ofBytes (cut m.bytes 4 8)))]
  else if m.messageType = 2 then
    [(PacketScope.outer.query (.icmpv6 (.known .icmpv6Mtu)), .ofBits (ofBytes (cut m.bytes 4 8)))]
  else if m.messageType = 4 then
    [(PacketScope.outer.query (.icmpv6 (.known .icmpv6Pointer)),
      .ofBits (ofBytes (cut m.bytes 4 8)))]
  else []

def icmpv6HeaderAnswers (m : Icmpv6Message) : Answers :=
  [(PacketScope.outer.query (.icmpv6 (.known .icmpv6Type)), word 8 m.messageType.toNat),
    (PacketScope.outer.query (.icmpv6 (.known .icmpv6Code)), word 8 (byteAt m.bytes 1).toNat)]

def icmpv6Answers (m : Icmpv6Message) : Answers := icmpv6HeaderAnswers m ++ secondWordAnswers m

theorem queries_icmpv6Answers (m : Icmpv6Message) :
    (icmpv6Answers m).queries = icmpv6Queries m.messageType := by
  simp only [Answers.queries, icmpv6Answers, icmpv6HeaderAnswers, secondWordAnswers, icmpv6Queries]
  split
  · rfl
  · split
    · rfl
    · split
      · rfl
      · split <;> rfl

theorem payloadOffset_eight {messageType : UInt8}
    (wide : isEchoType messageType ∨ isIcmpv6ErrorType messageType) :
    icmpv6PayloadOffset messageType = 8 := by
  rw [icmpv6PayloadOffset, if_pos (by simpa using wide)]

theorem icmpv6_types : ∀ messageType : UInt8,
    (hasIcmpv6UnusedField messageType → isIcmpv6ErrorType messageType) ∧
      (messageType = 2 → isIcmpv6ErrorType messageType) ∧
      (messageType = 4 → isIcmpv6ErrorType messageType) ∧
      (isIcmpv6ErrorType messageType → isEchoType messageType = false) ∧
      (isIcmpv6ErrorType messageType → hasIcmpv6UnusedField messageType = false →
        messageType = 2 ∨ messageType = 4) := by
  apply forall_byte
  decide +kernel

theorem answered_icmpv6 (located : packetForScope packet .outer = .ok p.bytes)
    (icmpv6 : p.nextHeader = 58) {m : Icmpv6Message}
    (parsed : Icmpv6Message.parse p.payload = .ok m) :
    Answered packet direction coapPresent state (icmpv6Answers m) := by
  have extracted : ∀ name, extractQuery packet direction coapPresent state
      (PacketScope.outer.query (.icmpv6 (.known name))) =
        extractIcmpv6Field m (.known name) (icmpv6Structured state.fields .outer) := by
    intro name
    rw [extractQuery, extractField]
    change (packetForScope packet .outer >>= _) = _
    rw [located, ok_bind]
    change (Ipv6Packet.parse p.bytes >>= _) = _
    rw [Ipv6Packet.parse_bytes, ok_bind, parsed, ok_bind]
    rfl
  obtain ⟨unusedError, mtuError, pointerError, -, -⟩ := icmpv6_types m.messageType
  have header := m.header
  have word4 : 8 ≤ m.bytes.length → FieldValue.fromBytes (cut m.bytes 4 8) 32 =
      .ok (.ofBits (ofBytes (cut m.bytes 4 8))) := by
    intro long
    have whole := FieldValue.fromBytes_whole (cut m.bytes 4 8)
    rwa [length_cut long] at whole
  have errorLong : isIcmpv6ErrorType m.messageType → 8 ≤ m.bytes.length := by
    intro error
    exact (payloadOffset_eight (.inr error)).symm.trans_le header
  apply Answered.append
  · intro a member
    simp only [icmpv6HeaderAnswers, List.mem_cons, List.not_mem_nil, or_false] at member
    rcases member with rfl | rfl
    · rw [extracted]
      exact FieldValue.fromU64_eq (by decide) m.messageType.toNat_lt
    · rw [extracted]
      exact FieldValue.fromU64_eq (by decide) (byteAt m.bytes 1).toNat_lt
  · intro a member
    unfold secondWordAnswers at member
    split at member
    · rename_i echo
      have long : 8 ≤ m.bytes.length := (payloadOffset_eight (.inl echo)).symm.trans_le header
      have ready : ¬ (¬ m.isEcho ∨ m.bytes.length < 8) := by
        rintro (quiet | short)
        · exact quiet echo
        · omega
      simp only [List.mem_cons, List.not_mem_nil, or_false] at member
      rcases member with rfl | rfl
      · rw [extracted]
        change extractEchoField m 4 (by decide) _ = _
        rw [extractEchoField, dif_neg ready]
        exact FieldValue.fromU64_eq (by decide) (value_two_lt (byteAt m.bytes 4) (byteAt m.bytes 5))
      · rw [extracted]
        change extractEchoField m 6 (by decide) _ = _
        rw [extractEchoField, dif_neg ready]
        exact FieldValue.fromU64_eq (by decide) (value_two_lt (byteAt m.bytes 6) (byteAt m.bytes 7))
    · split at member
      · rename_i unused
        have long := errorLong (unusedError unused)
        have short : ¬ m.bytes.length < 8 := by omega
        rw [List.mem_singleton] at member
        subst member
        rw [extractQuery, extractField]
        change (packetForScope packet .outer >>= _) = _
        rw [located, ok_bind]
        change extractUnusedField p.bytes = _
        rw [extractUnusedField, packetForScope_outer, ok_bind, Ipv6Packet.parse_bytes, ok_bind,
          if_neg (fun other => other icmpv6), parsed, ok_bind, if_neg (fun other => other unused),
          dif_neg short]
        exact word4 long
      · split at member
        · rename_i mtu
          have long := errorLong (mtuError mtu)
          have short : ¬ m.bytes.length < 8 := by omega
          rw [List.mem_singleton] at member
          subst member
          rw [extracted]
          change extractTypeWord m 2 = _
          rw [extractTypeWord, dif_neg short, if_neg (fun other => other mtu)]
          exact word4 long
        · split at member
          · rename_i pointer
            have long := errorLong (pointerError pointer)
            have short : ¬ m.bytes.length < 8 := by omega
            rw [List.mem_singleton] at member
            subst member
            rw [extracted]
            change extractTypeWord m 4 = _
            rw [extractTypeWord, dif_neg short, if_neg (fun other => other pointer)]
            exact word4 long
          · cases member

end
/- The stores rebuild the packets. -/

theorem validatePacketLengths_parsed {p : Ipv6Packet}
    (udp : p.nextHeader = 17 → ∃ u, UdpDatagram.parse p.payload = .ok u) :
    validatePacketLengths p.bytes = .ok () := by
  rw [validatePacketLengths, if_pos ⟨p.header, p.version⟩, Ipv6Packet.parse_bytes, ok_bind]
  split
  · rename_i here
    obtain ⟨u, parsed⟩ := udp here
    rw [parsed]
    rfl
  · rfl

theorem reconstructPacket_of_at {p : Ipv6Packet} {direction : Direction} {fields : FieldStore}
    (rebuilt : reconstructPacketAt packetDepth direction fields .outer = .ok p.bytes)
    (udp : p.nextHeader = 17 → ∃ u, UdpDatagram.parse p.payload = .ok u) :
    reconstructPacket direction fields = .ok p.bytes := by
  rw [reconstructPacket, rebuilt, ok_bind, validatePacketLengths_parsed udp]
  rfl

theorem udp_short {p : Ipv6Packet} {u : UdpDatagram}
    (parsed : UdpDatagram.parse p.payload = .ok u) : u.bytes.length < 65536 := by
  rw [UdpDatagram.parse_eq_ok.mp parsed]
  exact p.payload_lt

theorem sharedPayload_generic {fields : FieldStore} {scope : PacketScope} {field : FieldRef}
    {payload : List UInt8} (absent : fields.firstByFieldScope field scope = none)
    (generic : fields.firstByFieldScope .payload scope = some (.ofBits (ofBytes payload))) :
    sharedPayload fields scope field = .ok payload := by
  simp only [sharedPayload, absent, generic, FieldValue.bytes_ofBits_ofBytes]

theorem rebuilds_udp {p : Ipv6Packet} {u : UdpDatagram} (udp : p.nextHeader = 17)
    (summed : p.Checksummed) (parsed : UdpDatagram.parse p.payload = .ok u)
    (direction : Direction) :
    reconstructPacket direction (Answers.store (ipv6Answers p direction .outer ++
      udpAnswers u direction .outer ++ payloadAnswer u.payload .outer)) = .ok p.bytes := by
  apply reconstructPacket_of_at
  · refine reconstructPacketAt_restores_udp ?_ udp summed parsed ?_ 1
    · exact ⟨⟨rfl, rfl, rfl, rfl, rfl, rfl, rfl, rfl, rfl⟩, rfl⟩
    · refine reconstructUdp_restores ?_ (show carriedCoap _ .outer = .ok [] from rfl) ?_
        (udp_short parsed)
      · exact ⟨rfl, rfl, rfl, rfl⟩
      · rw [udpPayload, if_pos rfl]
        exact sharedPayload_generic rfl rfl
  · exact fun _ => ⟨u, parsed⟩

/-- Answers to other fields hold no value for a field. -/
theorem firstByFieldScope_apart {field : FieldRef} {answers : Answers}
    (apart : ∀ a ∈ answers, a.1.key.field ≠ field) (scope : PacketScope) :
    (Answers.store answers).firstByFieldScope field scope = none := by
  rw [firstByFieldScope, List.findSome?_eq_none_iff]
  intro stored member
  obtain ⟨a, listed, rfl⟩ := List.mem_map.mp member
  exact if_neg fun same => apart a listed same.1

theorem firstByFieldScope_append (front back : Answers) (field : FieldRef) (scope : PacketScope) :
    (Answers.store (front ++ back)).firstByFieldScope field scope =
      ((Answers.store front).firstByFieldScope field scope).or
        ((Answers.store back).firstByFieldScope field scope) := by
  simp only [firstByFieldScope, Answers.store, List.map_append, List.findSome?_append]

/-- Answers to other fields do not hide a field. -/
theorem firstByFieldScope_between {field : FieldRef} (front back : Answers) {between : Answers}
    (apart : ∀ a ∈ between, a.1.key.field ≠ field) (scope : PacketScope) :
    (Answers.store (front ++ between ++ back)).firstByFieldScope field scope =
      (Answers.store (front ++ back)).firstByFieldScope field scope := by
  rw [firstByFieldScope_append, firstByFieldScope_append, firstByFieldScope_append,
    firstByFieldScope_apart apart, Option.or_none]

theorem isCoapOption_optionAnswers {before options : List CoapOption} :
    ∀ a ∈ optionAnswers before options, a.1.key.field.isCoapOption := by
  induction options generalizing before with
  | nil =>
    intro a member
    cases member
  | cons option options ih =>
    intro a member
    rcases List.mem_cons.mp member with rfl | later
    · rfl
    · exact ih a later

theorem coapOptions_store {options : List CoapOption} (before : List CoapOption)
    (short : ∀ o ∈ options, o.value.length ≤ 65804) {back : FieldStore}
    (ended : coapOptions .outer back = .ok []) :
    coapOptions .outer (Answers.store (optionAnswers before options) ++ back) = .ok options := by
  induction options generalizing before with
  | nil => exact ended
  | cons option options ih =>
    have small : option.number.toNat < 2 ^ 32 := option.number.toNat_lt
    have length := short option List.mem_cons_self
    have narrow : ¬ option.value.length ≥ 2 ^ 32 := by omega
    have encodable : ¬ option.value.length > 65804 := by omega
    have made : CoapOption.new (UInt32.ofNat option.number.toNat)
        (FieldValue.ofBits (ofBytes option.value)).bytes = .ok option := by
      rw [FieldValue.bytes_ofBits_ofBytes, CoapOption.new, if_neg narrow, if_neg encodable,
        UInt32.ofNat_toNat]
    have rest := ih (before ++ [option]) fun o member => short o (List.mem_cons_of_mem _ member)
    change coapOptions .outer ((⟨.coapOption option.number.toNat, _, 0, .outer⟩,
      .ofBits (ofBytes option.value)) ::
        (Answers.store (optionAnswers (before ++ [option]) options) ++ back)) = _
    simp only [coapOptions, small, ↓reduceIte, made, ok_bind, rest]

theorem rebuilds_coap {p : Ipv6Packet} {u : UdpDatagram} {m : CoapMessage}
    (udp : p.nextHeader = 17) (summed : p.Checksummed)
    (parsed : UdpDatagram.parse p.payload = .ok u) (coap : CoapMessage.parse u.payload = .ok m)
    (direction : Direction) :
    reconstructPacket direction (Answers.store (ipv6Answers p direction .outer ++
      udpAnswers u direction .outer ++ coapAnswers m ++ payloadAnswer m.payload .outer)) =
        .ok p.bytes := by
  have split : ipv6Answers p direction .outer ++ udpAnswers u direction .outer ++ coapAnswers m ++
      payloadAnswer m.payload .outer = (ipv6Answers p direction .outer ++
        udpAnswers u direction .outer ++ coapHeaderAnswers m) ++ optionAnswers [] m.options ++
          payloadAnswer m.payload .outer := by
    simp only [coapAnswers, List.append_assoc]
  have header := CoapMessage.header_of_parse coap
  rw [split]
  have apart : ∀ {field : FieldRef}, field.isCoapOption = false →
      ∀ a ∈ optionAnswers [] m.options, a.1.key.field ≠ field := by
    intro field other a member same
    rw [← same, isCoapOption_optionAnswers a member] at other
    cases other
  have found := fun {field : FieldRef} (other : field.isCoapOption = false) =>
    firstByFieldScope_between (ipv6Answers p direction .outer ++
      udpAnswers u direction .outer ++ coapHeaderAnswers m) (payloadAnswer m.payload .outer)
      (apart other) .outer
  have options : coapOptions .outer (Answers.store ((ipv6Answers p direction .outer ++
      udpAnswers u direction .outer ++ coapHeaderAnswers m) ++ optionAnswers [] m.options ++
        payloadAnswer m.payload .outer)) = .ok m.options := by
    have ended : coapOptions .outer (Answers.store (payloadAnswer m.payload .outer)) = .ok [] := rfl
    have store := coapOptions_store [] header.options ended
    simp only [Answers.store, List.map_append, List.append_assoc]
    exact store
  generalize Answers.store ((ipv6Answers p direction .outer ++ udpAnswers u direction .outer ++
    coapHeaderAnswers m) ++ optionAnswers [] m.options ++ payloadAnswer m.payload .outer) = fields
    at found options ⊢
  have rebuilt : reconstructCoap fields .outer = .ok u.payload := by
    apply reconstructCoap_restores coap
    refine ⟨(found rfl).trans rfl, (found rfl).trans rfl, (found rfl).trans rfl,
      (found rfl).trans rfl, (found rfl).trans rfl, (found rfl).trans rfl, options, ?_⟩
    exact sharedPayload_generic ((found rfl).trans rfl) ((found rfl).trans rfl)
  have present : fields.containsFieldScope (.coap (.known .coapVersion)) .outer := by
    rw [containsFieldScope, found rfl]
    rfl
  have carried : carriedCoap fields .outer = .ok u.payload := by
    rw [carriedCoap, if_pos ⟨rfl, present⟩, rebuilt]
  have filled : u.payload ≠ [] := by
    intro empty
    have long := header.long
    rw [empty, List.length_nil] at long
    omega
  have absent : fields.firstByFieldScope (.udp (.known .udpPayload)) .outer = none :=
    (found rfl).trans rfl
  apply reconstructPacket_of_at
  · refine reconstructPacketAt_restores_udp ?_ udp summed parsed ?_ 1
    · exact ⟨⟨(found rfl).trans rfl, (found rfl).trans rfl, (found rfl).trans rfl,
        (found rfl).trans rfl, (found rfl).trans rfl, (found rfl).trans rfl,
        (found rfl).trans rfl, (found rfl).trans rfl, (found rfl).trans rfl⟩,
        (found rfl).trans rfl⟩
    · refine reconstructUdp_restores ?_ carried ?_ (udp_short parsed)
      · exact ⟨(found rfl).trans rfl, (found rfl).trans rfl, (found rfl).trans rfl,
          (found rfl).trans rfl⟩
      · rw [udpPayload, if_neg filled, absent]
  · exact fun _ => ⟨u, parsed⟩

/-- The fields that an ICMPv6 message's second word can have. -/
def isSecondWord : FieldRef → Bool
  | .unused => true
  | .icmpv6 (.known .icmpv6Identifier) => true
  | .icmpv6 (.known .icmpv6Sequence) => true
  | .icmpv6 (.known .icmpv6Mtu) => true
  | .icmpv6 (.known .icmpv6Pointer) => true
  | _ => false

theorem isSecondWord_answers (m : Icmpv6Message) :
    ∀ a ∈ secondWordAnswers m, isSecondWord a.1.key.field := by
  intro a member
  unfold secondWordAnswers at member
  split at member
  · simp only [List.mem_cons, List.not_mem_nil, or_false] at member
    rcases member with rfl | rfl <;> rfl
  · split at member
    · rw [List.mem_singleton.mp member]
      rfl
    · split at member
      · rw [List.mem_singleton.mp member]
        rfl
      · split at member
        · rw [List.mem_singleton.mp member]
          rfl
        · cases member

/-- Around the second word, the fields of an ICMPv6 packet are found as if it were not there. -/
theorem found_around_secondWord (m : Icmpv6Message) (front back : Answers) {field : FieldRef}
    (other : isSecondWord field = false) (scope : PacketScope) :
    (Answers.store (front ++ (icmpv6HeaderAnswers m ++ secondWordAnswers m) ++
      back)).firstByFieldScope field scope =
      (Answers.store (front ++ icmpv6HeaderAnswers m ++ back)).firstByFieldScope field scope := by
  rw [← List.append_assoc front]
  apply firstByFieldScope_between
  intro a member same
  rw [← same, isSecondWord_answers m a member] at other
  cases other

theorem rebuilds_icmpv6 {p : Ipv6Packet} {m : Icmpv6Message} (icmpv6 : p.nextHeader = 58)
    (summed : p.Checksummed) (parsed : Icmpv6Message.parse p.payload = .ok m)
    (ordinary : isIcmpv6ErrorType m.messageType = false) (direction : Direction) :
    reconstructPacket direction (Answers.store (ipv6Answers p direction .outer ++
      icmpv6Answers m ++ payloadAnswer m.payload .outer)) = .ok p.bytes := by
  have found := fun {field : FieldRef} (other : isSecondWord field = false) =>
    found_around_secondWord m (ipv6Answers p direction .outer) (payloadAnswer m.payload .outer)
      other .outer
  have header := m.header
  have words : ∃ words, echoWords (Answers.store (ipv6Answers p direction .outer ++
      (icmpv6HeaderAnswers m ++ secondWordAnswers m) ++ payloadAnswer m.payload .outer)) .outer
        m.messageType = .ok words ∧ words ++ m.payload = m.bytes.drop 4 := by
    by_cases echo : isEchoType m.messageType
    · have offset : m.payloadOffset = 8 := payloadOffset_eight (.inl echo)
      have long : 8 ≤ m.bytes.length := offset.symm.trans_le header
      have second : secondWordAnswers m = _ := if_pos echo
      have identifier : Stores (Answers.store (ipv6Answers p direction .outer ++
          (icmpv6HeaderAnswers m ++ secondWordAnswers m) ++ payloadAnswer m.payload .outer)) .outer
          (.icmpv6 (.known .icmpv6Identifier)) 16 (value [byteAt m.bytes 4, byteAt m.bytes 5]) := by
        rw [second]
        rfl
      have sequence : Stores (Answers.store (ipv6Answers p direction .outer ++
          (icmpv6HeaderAnswers m ++ secondWordAnswers m) ++ payloadAnswer m.payload .outer)) .outer
          (.icmpv6 (.known .icmpv6Sequence)) 16 (value [byteAt m.bytes 6, byteAt m.bytes 7]) := by
        rw [second]
        rfl
      have present : containsFieldScope (Answers.store (ipv6Answers p direction .outer ++
          (icmpv6HeaderAnswers m ++ secondWordAnswers m) ++ payloadAnswer m.payload .outer))
          (.icmpv6 (.known .icmpv6Identifier)) .outer := by
        rw [containsFieldScope, identifier]
        rfl
      refine ⟨toBytes 2 (value [byteAt m.bytes 4, byteAt m.bytes 5]) ++
        toBytes 2 (value [byteAt m.bytes 6, byteAt m.bytes 7]), ?_, ?_⟩
      · rw [echoWords, if_pos ⟨echo, present⟩, identifier.firstU16At (by decide)
            (value_two_lt (byteAt m.bytes 4) (byteAt m.bytes 5)), ok_bind,
          sequence.firstU16At (by decide) (value_two_lt (byteAt m.bytes 6) (byteAt m.bytes 7)),
          ok_bind]
      · rw [toBytes_two, toBytes_two, ← cut_two (show 4 + 1 < m.bytes.length by omega),
          ← cut_two (show 6 + 1 < m.bytes.length by omega), cut_append_cut _ (by decide) (by decide),
          Icmpv6Message.payload_eq, offset, cut_append_drop _ (by decide) long]
    · refine ⟨[], ?_, ?_⟩
      · rw [echoWords, if_neg fun both => echo both.1]
      · have offset : m.payloadOffset = 4 := by
          rw [Icmpv6Message.payloadOffset, icmpv6PayloadOffset, if_neg (by simp [echo, ordinary])]
        rw [Icmpv6Message.payload_eq, offset, List.nil_append]
  obtain ⟨words, echoed, split⟩ := words
  rw [icmpv6Answers]
  generalize Answers.store (ipv6Answers p direction .outer ++
    (icmpv6HeaderAnswers m ++ secondWordAnswers m) ++ payloadAnswer m.payload .outer) = fields
    at found echoed ⊢
  apply reconstructPacket_of_at
  · refine reconstructPacketAt_restores_icmpv6 ?_ icmpv6 summed parsed ?_
    · exact ⟨⟨(found rfl).trans rfl, (found rfl).trans rfl, (found rfl).trans rfl,
        (found rfl).trans rfl, (found rfl).trans rfl, (found rfl).trans rfl,
        (found rfl).trans rfl, (found rfl).trans rfl, (found rfl).trans rfl⟩,
        (found rfl).trans rfl⟩
    · refine reconstructIcmpv6_restores ?_ _ ordinary echoed ?_ split
      · exact ⟨(found rfl).trans rfl, (found rfl).trans rfl, (found rfl).trans rfl⟩
      · exact sharedPayload_generic ((found rfl).trans rfl) ((found rfl).trans rfl)
  · intro udp
    rw [icmpv6] at udp
    cases udp

/-- The store has the second word of an error under the field of its type. -/
theorem typeWord_secondWord {m : Icmpv6Message} (error : isIcmpv6ErrorType m.messageType)
    (front back : Answers) (before : ∀ a ∈ front, isSecondWord a.1.key.field = false) :
    icmpv6TypeWord (Answers.store (front ++ secondWordAnswers m ++ back)) .outer m.messageType =
      .ok (.ofBits (ofBytes (cut m.bytes 4 8))) := by
  obtain ⟨-, -, -, quiet, named⟩ := icmpv6_types m.messageType
  have echo : ¬ isEchoType m.messageType := by
    rw [quiet error]
    exact Bool.false_ne_true
  have located : ∀ field, isSecondWord field →
      (Answers.store (front ++ secondWordAnswers m ++ back)).firstByFieldScope field .outer =
        (Answers.store (secondWordAnswers m ++ back)).firstByFieldScope field .outer := by
    intro field second
    have apart : ∀ a ∈ front, a.1.key.field ≠ field := by
      intro a member same
      have other := before a member
      rw [same, second] at other
      cases other
    rw [List.append_assoc, firstByFieldScope_append, firstByFieldScope_apart apart, Option.none_or]
  by_cases unused : hasIcmpv6UnusedField m.messageType
  · have second : secondWordAnswers m = _ := (if_neg echo).trans (if_pos unused)
    rw [icmpv6TypeWord, if_pos unused, located .unused rfl, second]
    rfl
  · rcases named error (by simpa using unused) with mtu | pointer
    · have second : secondWordAnswers m = _ :=
        (if_neg echo).trans ((if_neg unused).trans (if_pos mtu))
      rw [icmpv6TypeWord, if_neg unused, if_pos mtu, located _ rfl, second]
      rfl
    · have other : ¬ m.messageType = 2 := by
        rw [pointer]
        decide
      have second : secondWordAnswers m = _ :=
        (if_neg echo).trans ((if_neg unused).trans ((if_neg other).trans (if_pos pointer)))
      rw [icmpv6TypeWord, if_neg unused, if_neg other, located _ rfl, second]
      rfl

/-- The answers that describe an ICMPv6 error and the UDP packet that it carries. -/
def icmpv6ErrorAnswers (p q : Ipv6Packet) (m : Icmpv6Message) (u : UdpDatagram)
    (direction : Direction) : Answers :=
  ipv6Answers p direction .outer ++ icmpv6Answers m ++
    (ipv6Answers q (reverseDirection direction) .embedded ++
      udpAnswers u (reverseDirection direction) .embedded ++ payloadAnswer u.payload .embedded)

theorem rebuilds_icmpv6_error {p q : Ipv6Packet} {m : Icmpv6Message} {u : UdpDatagram}
    (icmpv6 : p.nextHeader = 58) (summed : p.Checksummed)
    (parsed : Icmpv6Message.parse p.payload = .ok m) (error : isIcmpv6ErrorType m.messageType)
    (carried : Ipv6Packet.parse m.payload = .ok q) (udp : q.nextHeader = 17)
    (innerSummed : q.Checksummed) (datagram : UdpDatagram.parse q.payload = .ok u)
    (direction : Direction) :
    reconstructPacket direction (Answers.store (icmpv6ErrorAnswers p q m u direction)) =
      .ok p.bytes := by
  have found := fun {field : FieldRef} (other : isSecondWord field = false)
      (scope : PacketScope) =>
    found_around_secondWord m (ipv6Answers p direction .outer)
      (ipv6Answers q (reverseDirection direction) .embedded ++
        udpAnswers u (reverseDirection direction) .embedded ++ payloadAnswer u.payload .embedded)
      other scope
  have header := m.header
  have offset : m.payloadOffset = 8 := payloadOffset_eight (.inr error)
  have long : 8 ≤ m.bytes.length := offset.symm.trans_le header
  have typeWord : icmpv6TypeWord (Answers.store (icmpv6ErrorAnswers p q m u direction)) .outer
      m.messageType = .ok (.ofBits (ofBytes (cut m.bytes 4 8))) := by
    have before : ∀ a ∈ ipv6Answers p direction .outer ++ icmpv6HeaderAnswers m,
        isSecondWord a.1.key.field = false := by
      intro a member
      simp only [ipv6Answers, icmpv6HeaderAnswers, List.cons_append, List.nil_append,
        List.mem_cons, List.not_mem_nil, or_false] at member
      rcases member with rfl | rfl | rfl | rfl | rfl | rfl | rfl | rfl | rfl | rfl | rfl <;> rfl
    have word := typeWord_secondWord error _
      (ipv6Answers q (reverseDirection direction) .embedded ++
        udpAnswers u (reverseDirection direction) .embedded ++ payloadAnswer u.payload .embedded)
      before
    rw [icmpv6ErrorAnswers, icmpv6Answers, ← List.append_assoc (ipv6Answers p direction .outer)]
    exact word
  have bytes := Ipv6Packet.parse_eq_ok.mp carried
  rw [icmpv6ErrorAnswers, icmpv6Answers] at typeWord ⊢
  generalize Answers.store (ipv6Answers p direction .outer ++
    (icmpv6HeaderAnswers m ++ secondWordAnswers m) ++
      (ipv6Answers q (reverseDirection direction) .embedded ++
        udpAnswers u (reverseDirection direction) .embedded ++ payloadAnswer u.payload .embedded))
    = fields at found typeWord ⊢
  have inner : reconstructPacketAt 1 (reverseDirection direction) fields .embedded =
      .ok q.bytes := by
    refine reconstructPacketAt_restores_udp ?_ udp innerSummed datagram ?_ 0
    · exact ⟨⟨(found rfl _).trans rfl, (found rfl _).trans rfl, (found rfl _).trans rfl,
        (found rfl _).trans rfl, (found rfl _).trans rfl, (found rfl _).trans rfl,
        (found rfl _).trans rfl, (found rfl _).trans rfl, (found rfl _).trans rfl⟩,
        (found rfl _).trans rfl⟩
    · refine reconstructUdp_restores ?_ (show carriedCoap fields .embedded = .ok [] from rfl) ?_
        (udp_short datagram)
      · exact ⟨(found rfl _).trans rfl, (found rfl _).trans rfl, (found rfl _).trans rfl,
          (found rfl _).trans rfl⟩
      · rw [udpPayload, if_pos rfl]
        exact sharedPayload_generic ((found rfl _).trans rfl) ((found rfl _).trans rfl)
  apply reconstructPacket_of_at
  · refine reconstructPacketAt_restores_icmpv6 ?_ icmpv6 summed parsed ?_
    · exact ⟨⟨(found rfl _).trans rfl, (found rfl _).trans rfl, (found rfl _).trans rfl,
        (found rfl _).trans rfl, (found rfl _).trans rfl, (found rfl _).trans rfl,
        (found rfl _).trans rfl, (found rfl _).trans rfl, (found rfl _).trans rfl⟩,
        (found rfl _).trans rfl⟩
    · have size : (FieldValue.ofBits (ofBytes (cut m.bytes 4 8))).bitLen = 32 := by
        rw [FieldValue.bitLen_ofBits, length_ofBytes, length_cut long]
      refine reconstructIcmpv6_restores_error ?_ error typeWord size
        (show icmpv6ErrorBody _ fields .outer = .ok q.bytes from ?_) ?_
      · exact ⟨(found rfl _).trans rfl, (found rfl _).trans rfl, (found rfl _).trans rfl⟩
      · have present : fields.containsFieldScope (.ipv6 (.known .ipv6Version)) .embedded := by
          rw [containsFieldScope, found rfl]
          rfl
        have absent : fields.firstByFieldScope .payload .outer = none := (found rfl _).trans rfl
        rw [icmpv6ErrorBody, if_pos present, inner, ok_bind, absent]
      · rw [FieldValue.bytes_ofBits_ofBytes, bytes, Icmpv6Message.payload_eq, offset,
          cut_append_drop _ (by decide) long]
  · intro other
    rw [icmpv6] at other
    cases other

theorem packetForScope_embedded {p q : Ipv6Packet} {m : Icmpv6Message} (icmpv6 : p.nextHeader = 58)
    (parsed : Icmpv6Message.parse p.payload = .ok m) (error : isIcmpv6ErrorType m.messageType)
    (carried : Ipv6Packet.parse m.payload = .ok q) :
    packetForScope p.bytes .embedded = .ok q.bytes := by
  have same := Ipv6Packet.parse_eq_ok.mp carried
  have header := q.header
  have long : ¬ m.payload.length < 4 := by
    rw [← same]
    omega
  rw [packetForScope, embeddedIpv6Packet, Ipv6Packet.parse_bytes, ok_bind,
    if_neg (fun other => other icmpv6), parsed, ok_bind, if_neg (fun other => other error),
    if_neg long, carried]
  rfl

/-- Reconstruction undoes extraction: what extraction answers about a described packet, lengths
    and checksums left out, rebuilds the packet. -/
theorem reconstruction_undoes_extraction {packet : List UInt8} {coapPresent : Bool}
    {queries : List Query} (described : Described packet coapPresent queries)
    (direction : Direction) (state : CompressionState) :
    ∃ store, extractQueries packet direction coapPresent state queries = .ok store ∧
      reconstructPacket direction store = .ok packet := by
  cases described with
  | @udp p u udp summed parsed =>
    have located := packetForScope_outer p
    have payload : Answered p.bytes direction false state (payloadAnswer u.payload .outer) :=
      answered_payload_udp located udp parsed
    have answered := ((answered_ipv6 located).append (answered_udp located parsed)).append payload
    exact ⟨_, answered.extractQueries, rebuilds_udp udp summed parsed direction⟩
  | @coap p u m udp summed parsed coap =>
    have located := packetForScope_outer p
    have payload : Answered p.bytes direction true state (payloadAnswer m.payload .outer) :=
      answered_payload_coap located udp parsed coap
    have answered := (((answered_ipv6 located).append (answered_udp located parsed)).append
      (answered_coap located parsed coap)).append payload
    have extracted := answered.extractQueries
    rw [queries_append, queries_append, queries_coapAnswers] at extracted
    exact ⟨_, extracted, rebuilds_coap udp summed parsed coap direction⟩
  | @icmpv6 p m icmpv6 summed parsed ordinary =>
    have located := packetForScope_outer p
    have payload : Answered p.bytes direction false state (payloadAnswer m.payload .outer) :=
      answered_payload_icmpv6 located icmpv6 parsed
    have answered := ((answered_ipv6 located).append
      (answered_icmpv6 located icmpv6 parsed)).append payload
    have extracted := answered.extractQueries
    rw [queries_append, queries_append, queries_icmpv6Answers] at extracted
    exact ⟨_, extracted, rebuilds_icmpv6 icmpv6 summed parsed ordinary direction⟩
  | @icmpv6Error p q m u icmpv6 summed parsed error carried udp innerSummed datagram =>
    have located := packetForScope_outer p
    have embedded := packetForScope_embedded icmpv6 parsed error carried
    have payload : Answered p.bytes direction false state (payloadAnswer u.payload .embedded) :=
      answered_payload_udp embedded udp datagram
    have answered := ((answered_ipv6 located).append
      (answered_icmpv6 located icmpv6 parsed)).append
        (((answered_ipv6 embedded).append (answered_udp embedded datagram)).append payload)
    have extracted := answered.extractQueries
    rw [queries_append, queries_append, queries_icmpv6Answers] at extracted
    exact ⟨_, extracted, rebuilds_icmpv6_error icmpv6 summed parsed error carried udp innerSummed
      datagram direction⟩

/-- A CoAP GET with one path segment. -/
def coapGet : Ipv6Packet where
  bytes :=
    [0x60, 0x00, 0x00, 0x00, 0x00, 0x0e, 0x11, 0x40, 0x20, 0x01, 0x0d, 0xb8, 0x00, 0x00, 0x00,
    0x00, 0x00, 0x00, 0x00, 0x00, 0x00, 0x00, 0x00, 0x01, 0x20, 0x01, 0x0d, 0xb8, 0x00,
    0x00, 0x00, 0x00, 0x00, 0x00, 0x00, 0x00, 0x00, 0x00, 0x00, 0x02, 0x16, 0x33, 0x16,
    0x33, 0x00, 0x0e, 0x74, 0x60, 0x40, 0x01, 0x12, 0x34, 0xb1, 0x61]
  header := by decide
  version := by decide
  declared := by decide

def coapGetDatagram : UdpDatagram where
  bytes := coapGet.payload
  header := by decide
  declared := by decide

def coapGetMessage : CoapMessage := ⟨1, 0, 1, 0x1234, [], [⟨11, [0x61]⟩], []⟩

theorem reconstruction_undoes_extraction_at_coap_get :
    ∃ store, extractQueries coapGet.bytes .down true .initial
        (ipv6Queries .outer ++ udpQueries .outer ++ coapQueries coapGetMessage ++
          [PacketScope.outer.query .payload]) = .ok store ∧
      reconstructPacket .down store = .ok coapGet.bytes := by
  have summed : coapGet.Checksummed := by
    unfold Ipv6Packet.Checksummed
    decide +kernel
  have parsed : UdpDatagram.parse coapGet.payload = .ok coapGetDatagram :=
    UdpDatagram.parse_bytes coapGetDatagram
  have coap : CoapMessage.parse coapGetDatagram.payload = .ok coapGetMessage := by
    decide +kernel
  exact reconstruction_undoes_extraction (.coap (by decide) summed parsed coap) .down .initial

end SchcCore
