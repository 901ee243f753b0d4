import SchcCore.Runtime.Node

/- The blocking transports around a node. An operation reads at one boundary and hands bytes over
   at the other; what the operating system answers is an argument, and what it was handed is part
   of what the operation yields. Socket addresses are only compared. -/
namespace SchcCore
open Outcome

inductive IoErrorKind where
  | timedOut | wouldBlock | other
  deriving DecidableEq, Repr

structure IoError where
  kind : IoErrorKind
  text : String
  deriving DecidableEq, Repr

/-- A bound UDP socket, known by its answer to `local_addr`. -/
structure UdpSocket (Addr : Type) where
  localAddr : Except IoError Addr

/-- `UdpOperation` and `PacketOperation` -/
inductive TransportOperation where
  | outbound | inbound
  deriving DecidableEq, Repr

/-- `UdpReport` and `PacketReport` -/
structure TransportReport where
  operation : TransportOperation
  ruleId : RuleId
  receivedBytes : Nat
  sentBytes : Nat
  deriving DecidableEq

inductive UdpError (Addr : Type) where
  | io (error : IoError)
  | invalidIpv6 (error : SchcError)
  | runtime (error : RuntimeError)
  | unexpectedLinkPeer (expected actual : Addr)
  | socketAddressMismatch (configured actual : Addr)
  | shortSend (expected actual : Nat)
  deriving DecidableEq

inductive PacketDeviceError where
  | io (error : IoError)
  | shortRead (expected actual : Nat)
  deriving DecidableEq

inductive PacketTransportError (Addr : Type) where
  | io (error : IoError)
  | device (error : PacketDeviceError)
  | invalidIpv6 (error : SchcError)
  | runtime (error : RuntimeError)
  | unexpectedLinkPeer (expected actual : Addr)
  | socketAddressMismatch (configured actual : Addr)
  | shortSend (expected actual : Nat)
  | shortWrite (expected actual : Nat)
  deriving DecidableEq

/-- `RECEIVE_BUFFER_BYTES` -/
def receiveBufferBytes : Nat := 65535

/-- `MAX_IPV6_PACKET_BYTES` -/
def maxIpv6PacketBytes : Nat := 40 + 65535

/-- `MIN_IPV6_MTU` -/
def minIpv6Mtu : Nat := 1280

/- What both transports do. -/

/-- The failures that both transports report, under the names of one of them. -/
structure TransportFailures (Addr ε : Type) where
  invalidIpv6 : SchcError → ε
  runtime : RuntimeError → ε
  unexpectedLinkPeer : Addr → Addr → ε

/-- Bytes to hand over, and what the report will say of them. -/
structure Outgoing where
  bytes : List UInt8
  ruleId : RuleId
  receivedBytes : Nat
  deriving DecidableEq

/-- What an operation returned, and the bytes that it handed over before. -/
structure Performed (ε : Type) where
  result : Outcome ε PanicSite TransportReport
  handed : Option (List UInt8)

section
variable {Addr ε δ : Type}

/-- A packet that was read becomes the bytes of a frame. -/
def prepareOutbound (failures : TransportFailures Addr ε) (node : LinkNode) (packet : List UInt8) :
    Outcome ε PanicSite Outgoing := do
  let _ ← mapFail failures.invalidIpv6 (Ipv6Packet.parse packet)
  let encoded ← mapFail failures.runtime (node.outbound packet)
  .ok ⟨encoded.frame.bytes, encoded.ruleId, packet.length⟩

/-- A link datagram of the peer becomes a packet. -/
def prepareInbound [DecidableEq Addr] (failures : TransportFailures Addr ε) (node : LinkNode)
    (linkPeer : Addr) (compressed : List UInt8) (source : Addr) : Outcome ε PanicSite Outgoing :=
  if source ≠ linkPeer then .error (.fail (failures.unexpectedLinkPeer linkPeer source))
  else do
    let decoded ← mapFail failures.runtime (node.inbound compressed)
    let _ ← mapFail failures.invalidIpv6 (Ipv6Packet.parse decoded.packet)
    .ok ⟨decoded.packet, decoded.ruleId, compressed.length⟩

/-- The count that the operating system answers decides whether all bytes were taken. -/
def Outgoing.complete (outgoing : Outgoing) (operation : TransportOperation) (io : δ → ε)
    (short : Nat → Nat → ε) (answer : Except δ Nat) : Outcome ε PanicSite TransportReport :=
  match answer with
  | .error error => .error (.fail (io error))
  | .ok sentBytes =>
      if sentBytes ≠ outgoing.bytes.length then
        .error (.fail (short outgoing.bytes.length sentBytes))
      else .ok ⟨operation, outgoing.ruleId, outgoing.receivedBytes, sentBytes⟩

/-- Bytes are handed over once they are prepared. -/
def perform (prepared : Outcome ε PanicSite Outgoing)
    (complete : Outgoing → Outcome ε PanicSite TransportReport) : Performed ε :=
  match prepared with
  | .error halt => ⟨.error halt, none⟩
  | .ok outgoing => ⟨complete outgoing, some outgoing.bytes⟩

/-- `?` on an answer of the operating system. -/
def fromIo (io : δ → ε) {α : Type} : Except δ α → Outcome ε PanicSite α
  | .ok a => .ok a
  | .error error => .error (.fail (io error))

@[simp] theorem fromIo_eq_ok {io : δ → ε} {α : Type} {x : Except δ α} {a : α} :
    fromIo io x = .ok a ↔ x = .ok a := by
  cases x <;> simp [fromIo]

/-- A socket that is handed in has to be bound where the configuration says. -/
def checkBound [DecidableEq Addr] (io : IoError → ε) (mismatch : Addr → Addr → ε)
    (socket : UdpSocket Addr) (configured : Addr) : Outcome ε PanicSite Unit := do
  let actual ← fromIo io socket.localAddr
  if actual ≠ configured then .error (.fail (mismatch configured actual)) else .ok ()

theorem prepareOutbound_ok {failures : TransportFailures Addr ε} {node : LinkNode}
    {packet : List UInt8} {outgoing : Outgoing} :
    prepareOutbound failures node packet = .ok outgoing ↔
      ∃ p encoded, Ipv6Packet.parse packet = .ok p ∧ node.outbound packet = .ok encoded ∧
        outgoing = ⟨encoded.frame.bytes, encoded.ruleId, packet.length⟩ := by
  simp only [prepareOutbound, bind_eq_ok, mapFail_eq_ok, Except.ok.injEq]
  constructor
  · rintro ⟨p, parsed, encoded, sent, rfl⟩
    exact ⟨p, encoded, parsed, sent, rfl⟩
  · rintro ⟨p, encoded, parsed, sent, rfl⟩
    exact ⟨p, parsed, encoded, sent, rfl⟩

theorem prepareInbound_ok [DecidableEq Addr] {failures : TransportFailures Addr ε}
    {node : LinkNode} {linkPeer source : Addr} {compressed : List UInt8} {outgoing : Outgoing} :
    prepareInbound failures node linkPeer compressed source = .ok outgoing ↔
      source = linkPeer ∧ ∃ decoded p, node.inbound compressed = .ok decoded ∧
        Ipv6Packet.parse decoded.packet = .ok p ∧
        outgoing = ⟨decoded.packet, decoded.ruleId, compressed.length⟩ := by
  unfold prepareInbound
  by_cases peer : source = linkPeer
  · simp only [peer, ne_eq, not_true_eq_false, ↓reduceIte, bind_eq_ok, mapFail_eq_ok,
      Except.ok.injEq, true_and]
    constructor
    · rintro ⟨decoded, received, p, parsed, rfl⟩
      exact ⟨decoded, p, received, parsed, rfl⟩
    · rintro ⟨decoded, p, received, parsed, rfl⟩
      exact ⟨decoded, received, p, parsed, rfl⟩
  · simp [peer]

theorem prepareOutbound_panic {failures : TransportFailures Addr ε} {node : LinkNode}
    {packet : List UInt8} {site : PanicSite}
    (panicked : prepareOutbound failures node packet = .error (.panic site)) :
    node.outbound packet = .error (.panic site) := by
  have parses := Ipv6Packet.safe_parse packet
  unfold prepareOutbound at panicked
  rcases parsed : Ipv6Packet.parse packet with (error | other) | p
  · rw [parsed] at panicked
    cases panicked
  · exact absurd parsed (parses other)
  · rw [parsed] at panicked
    rcases sent : node.outbound packet with (error | other) | encoded
    · rw [sent] at panicked
      cases panicked
    · rw [sent] at panicked
      cases panicked
      rfl
    · rw [sent] at panicked
      cases panicked

theorem prepareInbound_panic [DecidableEq Addr] {failures : TransportFailures Addr ε}
    {node : LinkNode} {linkPeer source : Addr} {compressed : List UInt8} {site : PanicSite}
    (panicked : prepareInbound failures node linkPeer compressed source = .error (.panic site)) :
    source = linkPeer ∧ node.inbound compressed = .error (.panic site) := by
  unfold prepareInbound at panicked
  split at panicked
  · cases panicked
  · rename_i peer
    refine ⟨not_not.mp peer, ?_⟩
    rcases received : node.inbound compressed with (error | other) | decoded
    · rw [received] at panicked
      cases panicked
    · rw [received] at panicked
      cases panicked
      rfl
    · rw [received] at panicked
      have parses := Ipv6Packet.safe_parse decoded.packet
      rcases parsed : Ipv6Packet.parse decoded.packet with (error | other) | p
      · simp [mapFail, parsed] at panicked
      · exact absurd parsed (parses other)
      · simp [mapFail, parsed] at panicked

/-- Bytes are handed over exactly when they were prepared. -/
theorem perform_handed {prepared : Outcome ε PanicSite Outgoing}
    {complete : Outgoing → Outcome ε PanicSite TransportReport} {bytes : List UInt8} :
    (perform prepared complete).handed = some bytes ↔
      ∃ outgoing, prepared = .ok outgoing ∧ outgoing.bytes = bytes := by
  cases prepared <;> simp [perform]

theorem perform_result {prepared : Outcome ε PanicSite Outgoing}
    {complete : Outgoing → Outcome ε PanicSite TransportReport} {report : TransportReport} :
    (perform prepared complete).result = .ok report ↔
      ∃ outgoing, prepared = .ok outgoing ∧ complete outgoing = .ok report := by
  cases prepared <;> simp [perform]

theorem perform_panic {prepared : Outcome ε PanicSite Outgoing}
    {complete : Outgoing → Outcome ε PanicSite TransportReport} {site : PanicSite}
    (completes : ∀ outgoing, Safe (complete outgoing))
    (panicked : (perform prepared complete).result = .error (.panic site)) :
    prepared = .error (.panic site) := by
  cases prepared with
  | error halt =>
    have same : halt = .panic site := Except.error.inj panicked
    rw [same]
  | ok outgoing => exact absurd panicked (completes outgoing site)

theorem Outgoing.safe_complete (outgoing : Outgoing) (operation : TransportOperation) (io : δ → ε)
    (short : Nat → Nat → ε) (answer : Except δ Nat) :
    Safe (outgoing.complete operation io short answer) := by
  unfold complete
  split
  · exact safe_fail _
  · exact safe_ite (fun _ => safe_fail _) fun _ => safe_ok _

/-- A report is made exactly when the operating system took all the bytes. -/
theorem Outgoing.complete_ok {outgoing : Outgoing} {operation : TransportOperation} {io : δ → ε}
    {short : Nat → Nat → ε} {answer : Except δ Nat} {report : TransportReport} :
    outgoing.complete operation io short answer = .ok report ↔
      answer = .ok outgoing.bytes.length ∧
        report = ⟨operation, outgoing.ruleId, outgoing.receivedBytes, outgoing.bytes.length⟩ := by
  unfold complete
  cases answer with
  | error error => simp
  | ok taken =>
    by_cases all : taken = outgoing.bytes.length
    · simp [all, eq_comm]
    · simp [all]

end

/- UDP on both sides. -/

structure UdpTransportConfig (Addr : Type) where
  linkBind : Addr
  linkPeer : Addr
  packetIngressBind : Addr
  packetOutputPeer : Addr

structure UdpTransport (Addr : Type) where
  node : LinkNode
  linkSocket : UdpSocket Addr
  packetIngress : UdpSocket Addr
  config : UdpTransportConfig Addr
  bound : linkSocket.localAddr = .ok config.linkBind

namespace UdpTransport
variable {Addr : Type}

def failures : TransportFailures Addr (UdpError Addr) :=
  ⟨.invalidIpv6, .runtime, .unexpectedLinkPeer⟩

variable [DecidableEq Addr]

theorem checkBound_ok {ε : Type} {io : IoError → ε} {mismatch : Addr → Addr → ε}
    {socket : UdpSocket Addr} {configured : Addr} :
    checkBound io mismatch socket configured = .ok () ↔ socket.localAddr = .ok configured := by
  simp only [checkBound, bind_eq_ok, fromIo_eq_ok]
  constructor
  · rintro ⟨actual, answered, compared⟩
    split at compared
    · cases compared
    · rename_i same
      rw [answered, not_not.mp same]
  · intro answered
    exact ⟨configured, answered, if_neg (not_not.mpr rfl)⟩

def fromSockets (node : LinkNode) (linkSocket packetIngress : UdpSocket Addr)
    (config : UdpTransportConfig Addr) : Outcome (UdpError Addr) PanicSite (UdpTransport Addr) :=
  match link : checkBound UdpError.io .socketAddressMismatch linkSocket config.linkBind with
  | .error halt => .error halt
  | .ok () => do
      checkBound .io .socketAddressMismatch packetIngress config.packetIngressBind
      .ok ⟨node, linkSocket, packetIngress, config, checkBound_ok.mp link⟩

/-- `bind`, given what binding the link and the ingress address answers. -/
def bind (node : LinkNode) (config : UdpTransportConfig Addr)
    (link ingress : Except IoError (UdpSocket Addr)) :
    Outcome (UdpError Addr) PanicSite (UdpTransport Addr) := do
  let linkSocket ← fromIo .io link
  let packetIngress ← fromIo .io ingress
  let linkBind ← fromIo .io linkSocket.localAddr
  let packetIngressBind ← fromIo .io packetIngress.localAddr
  fromSockets node linkSocket packetIngress
    { config with linkBind := linkBind, packetIngressBind := packetIngressBind }

theorem fromSockets_eq_ok {node : LinkNode} {linkSocket packetIngress : UdpSocket Addr}
    {config : UdpTransportConfig Addr} {transport : UdpTransport Addr} :
    fromSockets node linkSocket packetIngress config = .ok transport ↔
      packetIngress.localAddr = .ok config.packetIngressBind ∧ transport.node = node ∧
        transport.linkSocket = linkSocket ∧ transport.packetIngress = packetIngress ∧
        transport.config = config := by
  have link : transport.linkSocket = linkSocket → transport.config = config →
      checkBound UdpError.io .socketAddressMismatch linkSocket config.linkBind = .ok () := by
    rintro rfl rfl
    exact checkBound_ok.mpr transport.bound
  unfold fromSockets
  split
  · rename_i halt failed
    constructor
    · rintro ⟨⟩
    · rintro ⟨-, -, socket, -, configured⟩
      rw [link socket configured] at failed
      cases failed
  · rename_i checked
    rw [Outcome.bind_eq_ok]
    constructor
    · rintro ⟨⟨⟩, ingress, made⟩
      cases made
      exact ⟨checkBound_ok.mp ingress, rfl, rfl, rfl, rfl⟩
    · rintro ⟨ingress, rfl, rfl, rfl, rfl⟩
      exact ⟨(), checkBound_ok.mpr ingress, rfl⟩

/-- A transport is bound to the sockets that the operating system opened, at their own addresses. -/
theorem bind_eq_ok_iff {node : LinkNode} {config : UdpTransportConfig Addr}
    {link ingress : Except IoError (UdpSocket Addr)} {transport : UdpTransport Addr} :
    bind node config link ingress = .ok transport ↔
      link = .ok transport.linkSocket ∧ ingress = .ok transport.packetIngress ∧
        transport.packetIngress.localAddr = .ok transport.config.packetIngressBind ∧
        transport.node = node ∧ transport.config.linkPeer = config.linkPeer ∧
        transport.config.packetOutputPeer = config.packetOutputPeer := by
  simp only [bind, Outcome.bind_eq_ok, fromIo_eq_ok, fromSockets_eq_ok]
  constructor
  · rintro ⟨linkSocket, opened, packetIngress, received, linkBind, at', ingressBind, from', -, same,
      rfl, rfl, configured⟩
    rw [configured]
    exact ⟨opened, received, from', same, rfl, rfl⟩
  · rintro ⟨opened, received, from', same, peer, output⟩
    refine ⟨_, opened, _, received, _, transport.bound, _, from', from', same, rfl, rfl, ?_⟩
    rw [← peer, ← output]

/-- Receives one packet, compresses it and sends it to the link peer. -/
def outboundOnce (transport : UdpTransport Addr) (received : Except IoError (List UInt8 × Addr))
    (sent : Except IoError Nat) : Performed (UdpError Addr) :=
  perform
    (do
      let (packet, _) ← fromIo .io received
      prepareOutbound failures transport.node (packet.take receiveBufferBytes))
    (fun outgoing => outgoing.complete .outbound .io .shortSend sent)

/-- Receives one link datagram, decompresses it and sends the packet to the packet output. -/
def inboundOnce (transport : UdpTransport Addr) (received : Except IoError (List UInt8 × Addr))
    (sent : Except IoError Nat) : Performed (UdpError Addr) :=
  perform
    (do
      let (compressed, source) ← fromIo .io received
      prepareInbound failures transport.node transport.config.linkPeer
        (compressed.take receiveBufferBytes) source)
    (fun outgoing => outgoing.complete .inbound .io .shortSend sent)

end UdpTransport

/- A packet device on one side. -/

structure PacketTransportConfig (Addr : Type) where
  linkBind : Addr
  linkPeer : Addr

/-- `PacketTransport<D>`, without the device: what it answers is an argument. -/
structure PacketTransport (Addr : Type) where
  node : LinkNode
  linkSocket : UdpSocket Addr
  config : PacketTransportConfig Addr
  bound : linkSocket.localAddr = .ok config.linkBind

namespace PacketTransport
variable {Addr : Type}

def failures : TransportFailures Addr (PacketTransportError Addr) :=
  ⟨.invalidIpv6, .runtime, .unexpectedLinkPeer⟩

variable [DecidableEq Addr]

def fromSocket (node : LinkNode) (linkSocket : UdpSocket Addr) (config : PacketTransportConfig Addr) :
    Outcome (PacketTransportError Addr) PanicSite (PacketTransport Addr) :=
  match link : checkBound PacketTransportError.io .socketAddressMismatch linkSocket
      config.linkBind with
  | .error halt => .error halt
  | .ok () => .ok ⟨node, linkSocket, config, UdpTransport.checkBound_ok.mp link⟩

/-- `bind`, given what binding the link address answers. -/
def bind (node : LinkNode) (config : PacketTransportConfig Addr)
    (link : Except IoError (UdpSocket Addr)) :
    Outcome (PacketTransportError Addr) PanicSite (PacketTransport Addr) := do
  let linkSocket ← fromIo .io link
  let linkBind ← fromIo .io linkSocket.localAddr
  fromSocket node linkSocket { config with linkBind := linkBind }

theorem fromSocket_eq_ok {node : LinkNode} {linkSocket : UdpSocket Addr}
    {config : PacketTransportConfig Addr} {transport : PacketTransport Addr} :
    fromSocket node linkSocket config = .ok transport ↔
      linkSocket.localAddr = .ok config.linkBind ∧ transport.node = node ∧
        transport.linkSocket = linkSocket ∧ transport.config = config := by
  unfold fromSocket
  split
  · rename_i halt failed
    constructor
    · rintro ⟨⟩
    · rintro ⟨bound, -⟩
      rw [UdpTransport.checkBound_ok.mpr bound] at failed
      cases failed
  · rename_i checked
    constructor
    · intro made
      cases made
      exact ⟨UdpTransport.checkBound_ok.mp checked, rfl, rfl, rfl⟩
    · rintro ⟨-, rfl, rfl, rfl⟩
      rfl

theorem bind_eq_ok_iff {node : LinkNode} {config : PacketTransportConfig Addr}
    {link : Except IoError (UdpSocket Addr)} {transport : PacketTransport Addr} :
    bind node config link = .ok transport ↔
      link = .ok transport.linkSocket ∧ transport.node = node ∧
        transport.config.linkPeer = config.linkPeer := by
  simp only [bind, Outcome.bind_eq_ok, fromIo_eq_ok, fromSocket_eq_ok]
  constructor
  · rintro ⟨linkSocket, opened, linkBind, at', -, same, rfl, configured⟩
    rw [configured]
    exact ⟨opened, same, rfl⟩
  · rintro ⟨opened, same, peer⟩
    refine ⟨_, opened, _, transport.bound, transport.bound, same, rfl, ?_⟩
    rw [← peer]

/-- Reads one packet from the device, compresses it and sends it to the link peer. -/
def outboundOnce (transport : PacketTransport Addr) (read : Except PacketDeviceError (List UInt8))
    (sent : Except IoError Nat) : Performed (PacketTransportError Addr) :=
  perform
    (do
      let packet ← fromIo .device read
      prepareOutbound failures transport.node packet)
    (fun outgoing => outgoing.complete .outbound .io .shortSend sent)

/-- Receives one link datagram, decompresses it and writes the packet to the device. -/
def inboundOnce (transport : PacketTransport Addr) (received : Except IoError (List UInt8 × Addr))
    (written : Except PacketDeviceError Nat) : Performed (PacketTransportError Addr) :=
  perform
    (do
      let (compressed, source) ← fromIo .io received
      prepareInbound failures transport.node transport.config.linkPeer
        (compressed.take receiveBufferBytes) source)
    (fun outgoing => outgoing.complete .inbound .device .shortWrite written)

end PacketTransport

/- The Linux TUN device. -/

structure LinuxTunConfig where
  name : String
  mtu : UInt16

inductive LinuxTunError where
  | invalidName
  | invalidMtu (mtu : UInt16)
  | interfaceName (source : IoError)
  | operation (operation : String) (source : IoError)
  deriving DecidableEq

def LinuxTunConfig.validate (config : LinuxTunConfig) : Except LinuxTunError Unit :=
  if config.name = "" then .error .invalidName
  else if config.mtu.toNat < minIpv6Mtu then .error (.invalidMtu config.mtu)
  else .ok ()

theorem LinuxTunConfig.validate_eq_ok {config : LinuxTunConfig} :
    config.validate = .ok () ↔ config.name ≠ "" ∧ minIpv6Mtu ≤ config.mtu.toNat := by
  unfold validate
  by_cases unnamed : config.name = ""
  · simp [unnamed]
  · by_cases small : config.mtu.toNat < minIpv6Mtu
    · simp [unnamed, small]
    · simp [unnamed, small, Nat.le_of_not_lt small]

namespace LinuxTunDevice

/-- `read_packet`, given what the device has to read. -/
def readPacket : Except IoError (List UInt8) → Except PacketDeviceError (List UInt8)
  | .error error => .error (.io error)
  | .ok packet => .ok (packet.take maxIpv6PacketBytes)

/-- `write_packet`, given what sending the packet answers. -/
def writePacket : Except IoError Nat → Except PacketDeviceError Nat
  | .error error => .error (.io error)
  | .ok written => .ok written

end LinuxTunDevice

/- Nodes that wrap every packet. -/

def wrapperProfile : DeviceProfile := ⟨none, none⟩

def wrapperNode (role : NodeRole) : LinkNode :=
  ⟨⟨⟨"wrapper", by decide⟩, ⟨wrapperContext, ⟨[⟨some ⟨3, 4⟩, some 0, []⟩]⟩⟩,
    ⟨wrapperContext, some wrapperProfile.value⟩⟩, role⟩

def wrapperUdp : UdpTransport Nat := ⟨wrapperNode .core, ⟨.ok 1⟩, ⟨.ok 3⟩, ⟨1, 2, 3, 4⟩, rfl⟩

def wrapperTun (role : NodeRole) (linkBind linkPeer : Nat) : PacketTransport Nat :=
  ⟨wrapperNode role, ⟨.ok linkBind⟩, ⟨linkBind, linkPeer⟩, rfl⟩

end SchcCore
