import SchcCore.Lib.Pipe
import SchcCore.Runtime.Halting

/- Two processes at the ends of a link. The network may lose, repeat, delay and reorder datagrams and
   strangers may send their own, but nobody else sends from the address of an end. Towards each end
   the link is a lossy pipe of packets. -/
namespace SchcCore
open Outcome

structure Datagram (Addr : Type) where
  source : Addr
  target : Addr
  bytes : List UInt8

/-- What fits a UDP datagram, whose length field has sixteen bits and counts eight header bytes. -/
def udpPayloadBytes : Nat := 65535 - 8

structure Link (Addr : Type) where
  ends : NodeRole → Process Addr
  operationLimit : NodeRole → Option Nat
  roles : ∀ role, (ends role).node.role = role
  wired : ∀ role, (ends role).linkPeer = (ends role.peer).linkBind
  apart : (ends .core).linkBind ≠ (ends .device).linkBind

/-- The loops of both processes, every datagram that the network ever took, and for each end the
    packets that it accepted for the link and those that it handed over. -/
structure LinkState (Addr : Type) where
  loops : NodeRole → LoopState Addr
  wire : List (Datagram Addr)
  accepted : NodeRole → List (List UInt8)
  delivered : NodeRole → List (List UInt8)

section
variable {Addr : Type}

/-- The packet that an outbound operation reads. -/
def Process.reads (process : Process Addr) (answers : RoundAnswers Addr) : Option (List UInt8) :=
  match process with
  | .udp _ => (answers.packet.map fun received => received.1.take receiveBufferBytes).toOption
  | .tun _ => (LinuxTunDevice.readPacket (answers.packet.map Prod.fst)).toOption

variable [DecidableEq Addr]

namespace Link

def initial (link : Link Addr) : LinkState Addr where
  loops := fun role => Process.start (link.operationLimit role)
  wire := []
  accepted := fun _ => []
  delivered := fun _ => []

/-- A datagram that claims to come from an end of the link is one that this end sent here. -/
def Possible (link : Link Addr) (state : LinkState Addr) (role : NodeRole)
    (answers : RoundAnswers Addr) : Prop :=
  ∀ bytes source, answers.datagram = .ok (bytes, source) →
    ∀ other, source = (link.ends other).linkBind →
      ⟨source, (link.ends role).linkBind, bytes⟩ ∈ state.wire

/-- The state after an end has performed an operation. -/
def after (link : Link Addr) (state : LinkState Addr) (role : NodeRole)
    (operation : TransportOperation) (answers : RoundAnswers Addr) : LinkState Addr :=
  let process := link.ends role
  let loops := Function.update state.loops role
    (process.step (link.operationLimit role) (state.loops role) answers)
  match operation, (process.perform operation answers).handed with
  | .outbound, some bytes =>
      { state with
        loops := loops
        wire := if bytes.length ≤ udpPayloadBytes then
            state.wire ++ [⟨process.linkBind, process.linkPeer, bytes⟩]
          else state.wire
        accepted := Function.update state.accepted role
          (state.accepted role ++ (process.reads answers).toList) }
  | .inbound, some bytes =>
      { state with
        loops := loops
        delivered := Function.update state.delivered role (state.delivered role ++ [bytes]) }
  | _, none => { state with loops := loops }

/-- One end performs the operation that its loop is at. -/
inductive Step (link : Link Addr) : LinkState Addr → LinkState Addr → Prop where
  | operate (state : LinkState Addr) (role : NodeRole) (operation : TransportOperation)
      (successfulOperations : Nat) (answers : RoundAnswers Addr) :
      state.loops role = .running operation successfulOperations →
      (operation = .inbound → link.Possible state role answers) →
      Step link state (link.after state role operation answers)

/-- The states of all runs, under every interleaving and every behaviour of the network. -/
def Reachable (link : Link Addr) : LinkState Addr → Prop :=
  Relation.ReflTransGen link.Step link.initial

end Link

/- What is handed over and reported. -/

omit [DecidableEq Addr] in
theorem Process.reads_eq (process : Process Addr) (answers : RoundAnswers Addr) :
    process.reads answers =
      (answers.packet.map fun received => received.1.take process.mode.buffer).toOption := by
  cases process with
  | udp transport => rfl
  | tun transport =>
    rw [reads]
    cases answers.packet <;> rfl

omit [DecidableEq Addr] in
/-- What an outbound operation prepares: the frame of a complete packet that it read. -/
theorem Process.prepared_outbound {process : Process Addr} {answers : RoundAnswers Addr}
    {outgoing : Outgoing} :
    (fromIo process.mode.packetIo answers.packet >>= fun received =>
        prepareOutbound process.mode.failures process.node
          (received.1.take process.mode.buffer)) = .ok outgoing ↔
      ∃ (p : Ipv6Packet) (encoded : EncodedResult), process.reads answers = some p.bytes ∧
        process.node.outbound p.bytes = .ok encoded ∧
        outgoing = ⟨encoded.frame.bytes, encoded.ruleId, p.bytes.length⟩ := by
  rw [reads_eq]
  cases answers.packet with
  | error error => simp [fromIo, Except.map, Except.toOption]
  | ok received =>
    rw [fromIo, ok_bind, prepareOutbound_ok]
    simp only [Except.map, Except.toOption, Option.some.injEq]
    constructor
    · rintro ⟨p, encoded, parsed, sent, rfl⟩
      have same := Ipv6Packet.parse_eq_ok.mp parsed
      rw [← same] at sent ⊢
      exact ⟨p, encoded, rfl, sent, rfl⟩
    · rintro ⟨p, encoded, same, sent, rfl⟩
      rw [same]
      exact ⟨p, encoded, Ipv6Packet.parse_eq_ok.mpr rfl, sent, rfl⟩

/-- What an inbound operation prepares: the packet of a datagram from the peer. -/
theorem Process.prepared_inbound {process : Process Addr} {answers : RoundAnswers Addr}
    {outgoing : Outgoing} :
    (fromIo process.mode.linkIo answers.datagram >>= fun received =>
        prepareInbound process.mode.failures process.node process.linkPeer
          (received.1.take receiveBufferBytes) received.2) = .ok outgoing ↔
      ∃ compressed decoded, answers.datagram = .ok (compressed, process.linkPeer) ∧
        process.node.inbound (compressed.take receiveBufferBytes) = .ok decoded ∧
        (∃ p, Ipv6Packet.parse decoded.packet = .ok p) ∧
        outgoing =
          ⟨decoded.packet, decoded.ruleId, (compressed.take receiveBufferBytes).length⟩ := by
  cases answers.datagram with
  | error error => simp [fromIo]
  | ok received =>
    obtain ⟨compressed, source⟩ := received
    rw [fromIo, ok_bind, prepareInbound_ok]
    constructor
    · rintro ⟨rfl, decoded, p, opened, parsed, rfl⟩
      exact ⟨compressed, decoded, rfl, opened, ⟨p, parsed⟩, rfl⟩
    · rintro ⟨_, decoded, same, opened, ⟨p, parsed⟩, rfl⟩
      cases same
      exact ⟨rfl, decoded, p, opened, parsed, rfl⟩

theorem Process.handed_outbound {process : Process Addr} {answers : RoundAnswers Addr}
    {bytes : List UInt8} (handed : (process.perform .outbound answers).handed = some bytes) :
    ∃ (p : Ipv6Packet) (encoded : EncodedResult), process.reads answers = some p.bytes ∧
      process.node.outbound p.bytes = .ok encoded ∧ bytes = encoded.frame.bytes := by
  rw [perform_outbound, perform_handed] at handed
  obtain ⟨outgoing, prepared, rfl⟩ := handed
  obtain ⟨p, encoded, read, sent, rfl⟩ := prepared_outbound.mp prepared
  exact ⟨p, encoded, read, sent, rfl⟩

/-- What an inbound operation hands over. -/
theorem Process.handed_inbound {process : Process Addr} {answers : RoundAnswers Addr}
    {bytes : List UInt8} (handed : (process.perform .inbound answers).handed = some bytes) :
    ∃ compressed decoded, answers.datagram = .ok (compressed, process.linkPeer) ∧
      process.node.inbound (compressed.take receiveBufferBytes) = .ok decoded ∧
      decoded.packet = bytes ∧ ∃ p, Ipv6Packet.parse bytes = .ok p := by
  rw [perform_inbound, perform_handed] at handed
  obtain ⟨outgoing, prepared, rfl⟩ := handed
  obtain ⟨compressed, decoded, arrived, opened, parsed, rfl⟩ := prepared_inbound.mp prepared
  exact ⟨compressed, decoded, arrived, opened, rfl, parsed⟩

/-- An outbound operation reports a packet that was compressed and whose frame the socket took,
    with the rule it was compressed under and the bytes on either side. -/
theorem Process.outbound_report_iff {process : Process Addr} {answers : RoundAnswers Addr}
    {report : TransportReport} :
    (process.perform .outbound answers).result = .ok report ↔
      ∃ (p : Ipv6Packet) (encoded : EncodedResult), process.reads answers = some p.bytes ∧
        process.node.outbound p.bytes = .ok encoded ∧
        answers.linkSent = .ok encoded.frame.bytes.length ∧
        report = ⟨.outbound, encoded.ruleId, p.bytes.length, encoded.frame.bytes.length⟩ := by
  simp only [perform_outbound, perform_result, prepared_outbound, Outgoing.complete_ok]
  constructor
  · rintro ⟨_, ⟨p, encoded, read, sent, rfl⟩, taken, rfl⟩
    exact ⟨p, encoded, read, sent, taken, rfl⟩
  · rintro ⟨p, encoded, read, sent, taken, rfl⟩
    exact ⟨_, ⟨p, encoded, read, sent, rfl⟩, taken, rfl⟩

/-- An inbound operation reports a datagram of the peer that was decompressed and whose packet was
    taken, with the rule it names and the bytes on either side. -/
theorem Process.inbound_report_iff {process : Process Addr} {answers : RoundAnswers Addr}
    {report : TransportReport} :
    (process.perform .inbound answers).result = .ok report ↔
      ∃ compressed decoded, answers.datagram = .ok (compressed, process.linkPeer) ∧
        process.node.inbound (compressed.take receiveBufferBytes) = .ok decoded ∧
        (∃ p, Ipv6Packet.parse decoded.packet = .ok p) ∧
        answers.packetSent = .ok decoded.packet.length ∧
        report = ⟨.inbound, decoded.ruleId, (compressed.take receiveBufferBytes).length,
          decoded.packet.length⟩ := by
  simp only [perform_inbound, perform_result, prepared_inbound, Outgoing.complete_ok]
  constructor
  · rintro ⟨_, ⟨compressed, decoded, arrived, opened, parsed, rfl⟩, taken, rfl⟩
    exact ⟨compressed, decoded, arrived, opened, parsed, taken, rfl⟩
  · rintro ⟨compressed, decoded, arrived, opened, parsed, taken, rfl⟩
    exact ⟨_, ⟨compressed, decoded, arrived, opened, parsed, rfl⟩, taken, rfl⟩

/-- A loop stops at a panic only when its operation panicked. -/
theorem Process.step_panic {process : Process Addr} {operationLimit : Option Nat}
    {operation : TransportOperation} {successfulOperations : Nat} {answers : RoundAnswers Addr}
    {site : PanicSite}
    (stopped : process.step operationLimit (.running operation successfulOperations) answers =
      .failed (.panic site)) :
    (process.perform operation answers).result = .error (.panic site) := by
  rw [← judgeResult_panic_iff]
  simp only [step, runOne_judge] at stopped
  cases verdict : judgeResult operation (process.perform operation answers).result with
  | counted =>
    rw [verdict] at stopped
    dsimp only at stopped
    split at stopped <;> cases stopped
  | passed =>
    rw [verdict] at stopped
    dsimp only at stopped
    split at stopped <;> cases stopped
  | fatal halt =>
    rw [verdict] at stopped
    cases stopped
    rfl

/- Steps of the link. -/

namespace Link
variable {link : Link Addr} {state : LinkState Addr}

theorem after_loops (link : Link Addr) (state : LinkState Addr) (role : NodeRole)
    (operation : TransportOperation) (answers : RoundAnswers Addr) :
    (link.after state role operation answers).loops = Function.update state.loops role
      ((link.ends role).step (link.operationLimit role) (state.loops role) answers) := by
  cases handed : ((link.ends role).perform operation answers).handed with
  | none => cases operation <;> simp [after, handed]
  | some bytes => cases operation <;> simp [after, handed]

/-- An operation changes nothing but its loop, or a packet is accepted and its frame is sent, or the
    packet of a datagram from the peer is delivered. -/
theorem after_cases (link : Link Addr) (state : LinkState Addr) (role : NodeRole)
    (operation : TransportOperation) (answers : RoundAnswers Addr) :
    ((link.after state role operation answers).wire = state.wire ∧
        (link.after state role operation answers).accepted = state.accepted ∧
        (link.after state role operation answers).delivered = state.delivered) ∨
      (∃ (p : Ipv6Packet) (encoded : EncodedResult),
        (link.ends role).node.outbound p.bytes = .ok encoded ∧
        (link.after state role operation answers).wire =
          (if encoded.frame.bytes.length ≤ udpPayloadBytes then
            state.wire ++
              [⟨(link.ends role).linkBind, (link.ends role).linkPeer, encoded.frame.bytes⟩]
          else state.wire) ∧
        (link.after state role operation answers).accepted =
          Function.update state.accepted role (state.accepted role ++ [p.bytes]) ∧
        (link.after state role operation answers).delivered = state.delivered) ∨
      (operation = .inbound ∧ ∃ (compressed : List UInt8) (decoded : DecodedResult),
        answers.datagram = .ok (compressed, (link.ends role).linkPeer) ∧
        (link.ends role).node.inbound (compressed.take receiveBufferBytes) = .ok decoded ∧
        (∃ p, Ipv6Packet.parse decoded.packet = .ok p) ∧
        (link.after state role operation answers).wire = state.wire ∧
        (link.after state role operation answers).accepted = state.accepted ∧
        (link.after state role operation answers).delivered =
          Function.update state.delivered role (state.delivered role ++ [decoded.packet])) := by
  cases handed : ((link.ends role).perform operation answers).handed with
  | none => cases operation <;> exact .inl (by simp [after, handed])
  | some bytes =>
    cases operation with
    | outbound =>
      obtain ⟨p, encoded, read, sent, rfl⟩ := Process.handed_outbound handed
      exact .inr (.inl ⟨p, encoded, sent, by simp [after, handed, read]⟩)
    | inbound =>
      obtain ⟨compressed, decoded, arrived, received, rfl, parsed⟩ :=
        Process.handed_inbound handed
      exact .inr (.inr ⟨rfl, compressed, decoded, arrived, received, parsed, by
        simp [after, handed]⟩)

/-- Every datagram of the network is the frame of a packet that an end accepted. -/
def Sourced (link : Link Addr) (state : LinkState Addr) : Prop :=
  ∀ datagram ∈ state.wire, ∃ (role : NodeRole) (p : Ipv6Packet) (encoded : EncodedResult),
    p.bytes ∈ state.accepted role ∧ (link.ends role).node.outbound p.bytes = .ok encoded ∧
      datagram = ⟨(link.ends role).linkBind, (link.ends role).linkPeer, encoded.frame.bytes⟩ ∧
      encoded.frame.bytes.length ≤ udpPayloadBytes

omit [DecidableEq Addr] in
theorem linkBind_injective (link : Link Addr) {a b : NodeRole}
    (same : (link.ends a).linkBind = (link.ends b).linkBind) : a = b := by
  cases a <;> cases b
  · rfl
  · exact absurd same link.apart
  · exact absurd same.symm link.apart
  · rfl

omit [DecidableEq Addr] in
/-- What arrives from the peer's address was framed by the peer. -/
theorem Sourced.arrives (sourced : link.Sourced state) {role : NodeRole}
    {answers : RoundAnswers Addr} (possible : link.Possible state role answers)
    {compressed : List UInt8}
    (arrived : answers.datagram = .ok (compressed, (link.ends role).linkPeer)) :
    ∃ (p : Ipv6Packet) (encoded : EncodedResult), p.bytes ∈ state.accepted role.peer ∧
      (link.ends role.peer).node.outbound p.bytes = .ok encoded ∧
      compressed.take receiveBufferBytes = encoded.frame.bytes := by
  have claimed := possible _ _ arrived role.peer (link.wired role)
  obtain ⟨sender, p, encoded, member, sent, same, fits⟩ := sourced _ claimed
  simp only [Datagram.mk.injEq] at same
  obtain ⟨source, -, rfl⟩ := same
  have own : role.peer = sender := link.linkBind_injective ((link.wired role).symm.trans source)
  subst own
  have short : encoded.frame.bytes.length ≤ receiveBufferBytes := by
    simp only [udpPayloadBytes, receiveBufferBytes] at fits ⊢
    omega
  exact ⟨p, encoded, member, sent, List.take_of_length_le short⟩

theorem Step.sourced {next : LinkState Addr} (step : link.Step state next)
    (sourced : link.Sourced state) : link.Sourced next := by
  obtain ⟨role, operation, successfulOperations, answers, running, possible⟩ := step
  rcases link.after_cases state role operation answers with ⟨wire, accepted, -⟩ |
    ⟨p, encoded, sent, wire, accepted, -⟩ | ⟨-, compressed, decoded, -, -, -, wire, accepted, -⟩
  · rw [Sourced, wire, accepted]
    exact sourced
  · have kept : ∀ (other : NodeRole) (packet : List UInt8), packet ∈ state.accepted other →
        packet ∈ Function.update state.accepted role (state.accepted role ++ [p.bytes]) other := by
      intro other packet member
      by_cases here : other = role
      · subst here
        simp [member]
      · simpa [here] using member
    rw [Sourced, wire, accepted]
    intro datagram member
    have old : datagram ∈ state.wire → _ := fun member => sourced datagram member
    have cases' : datagram ∈ state.wire ∨ encoded.frame.bytes.length ≤ udpPayloadBytes ∧ datagram =
        ⟨(link.ends role).linkBind, (link.ends role).linkPeer, encoded.frame.bytes⟩ := by
      split at member
      · rename_i fits
        rcases List.mem_append.mp member with old | new
        · exact .inl old
        · exact .inr ⟨fits, List.mem_singleton.mp new⟩
      · exact .inl member
    rcases cases' with old | ⟨fits, rfl⟩
    · obtain ⟨sender, q, framed, inside, made, same, fits⟩ := sourced datagram old
      exact ⟨sender, q, framed, kept sender _ inside, made, same, fits⟩
    · exact ⟨role, p, encoded, by simp, sent, rfl, fits⟩
  · rw [Sourced, wire, accepted]
    exact sourced

/-- The pipe towards an end. -/
def pipe (state : LinkState Addr) (role : NodeRole) : Pipe.State (List UInt8) (List UInt8) :=
  ⟨state.accepted role.peer, state.delivered role⟩

/-- What crossing the link towards an end makes of a packet. -/
def carry (link : Link Addr) (role : NodeRole) (packet : List UInt8) : Option (List UInt8) :=
  (transfer (link.ends role.peer).node (link.ends role).node packet).toOption.map
    DecodedResult.packet

omit [DecidableEq Addr] in
theorem carry_some {role : NodeRole} {packet q : List UInt8}
    (crosses : link.carry role packet = some q) :
    ∃ ruleId, transfer (link.ends role.peer).node (link.ends role).node packet =
      .ok ⟨q, ruleId⟩ := by
  rw [carry, Option.map_eq_some_iff] at crosses
  obtain ⟨decoded, crossed, rfl⟩ := crosses
  cases result : transfer (link.ends role.peer).node (link.ends role).node packet with
  | error halt => simp [result, Except.toOption] at crossed
  | ok other =>
    simp only [result, Except.toOption, Option.some.injEq] at crossed
    subst crossed
    exact ⟨other.ruleId, rfl⟩

theorem Step.pipe {next : LinkState Addr} (step : link.Step state next)
    (sourced : link.Sourced state) (towards : NodeRole) :
    Pipe.Run (link.carry towards) (Link.pipe state towards) (Link.pipe next towards) := by
  obtain ⟨role, operation, successfulOperations, answers, running, possible⟩ := step
  rcases link.after_cases state role operation answers with ⟨-, accepted, delivered⟩ |
    ⟨p, encoded, sent, -, accepted, delivered⟩ |
    ⟨inbound, compressed, decoded, arrived, received, -, -, accepted, delivered⟩
  · rw [Link.pipe, Link.pipe, accepted, delivered]
  · rw [Link.pipe, Link.pipe, accepted, delivered]
    by_cases here : towards.peer = role
    · subst here
      rw [Function.update_self]
      exact .single (.accept _ _ p.bytes)
    · rw [Function.update_of_ne here]
  · rw [Link.pipe, Link.pipe, accepted, delivered]
    by_cases here : towards = role
    · subst here
      rw [Function.update_self]
      obtain ⟨p, encoded, member, sent, framed⟩ := sourced.arrives (possible inbound) arrived
      have crosses : link.carry towards p.bytes = some decoded.packet := by
        rw [carry, transfer, sent, ok_bind, ← framed, received]
        rfl
      exact .single (.deliver _ _ p.bytes _ member crosses)
    · rw [Function.update_of_ne here]

/-- Only complete IPv6 packets are accepted for the link and handed over behind it. -/
def Complete (state : LinkState Addr) : Prop :=
  ∀ role, (∀ packet ∈ state.accepted role, ∃ p : Ipv6Packet, p.bytes = packet) ∧
    ∀ packet ∈ state.delivered role, ∃ p : Ipv6Packet, p.bytes = packet

theorem complete_update {packets : NodeRole → List (List UInt8)} {role : NodeRole}
    {packet : List UInt8} (new : ∃ p : Ipv6Packet, p.bytes = packet) (other : NodeRole)
    (old : ∀ packet ∈ packets other, ∃ p : Ipv6Packet, p.bytes = packet) :
    ∀ q ∈ Function.update packets role (packets role ++ [packet]) other,
      ∃ p : Ipv6Packet, p.bytes = q := by
  intro q member
  by_cases here : other = role
  · subst here
    rw [Function.update_self] at member
    rcases List.mem_append.mp member with earlier | last
    · exact old q earlier
    · rw [List.mem_singleton.mp last]
      exact new
  · rw [Function.update_of_ne here] at member
    exact old q member

theorem Step.complete {next : LinkState Addr} (step : link.Step state next)
    (complete : Complete state) : Complete next := by
  obtain ⟨role, operation, successfulOperations, answers, running, possible⟩ := step
  rcases link.after_cases state role operation answers with ⟨-, accepted, delivered⟩ |
    ⟨p, encoded, sent, -, accepted, delivered⟩ |
    ⟨-, compressed, decoded, -, -, ⟨p, parsed⟩, -, accepted, delivered⟩
  · intro other
    rw [accepted, delivered]
    exact complete other
  · intro other
    rw [accepted, delivered]
    exact ⟨complete_update ⟨p, rfl⟩ other (complete other).1, (complete other).2⟩
  · intro other
    rw [accepted, delivered]
    exact ⟨(complete other).1, complete_update ⟨p, Ipv6Packet.parse_eq_ok.mp parsed⟩ other
      (complete other).2⟩

/-- What holds in every state of every run. -/
theorem Reachable.sound (reached : link.Reachable state) :
    link.Sourced state ∧ Complete state := by
  induction reached with
  | refl =>
    constructor
    · intro datagram member
      cases member
    · intro role
      constructor
      · intro packet member
        cases member
      · intro packet member
        cases member
  | tail _ step ih => exact ⟨step.sourced ih.1, step.complete ih.2⟩

end Link

end

end SchcCore
