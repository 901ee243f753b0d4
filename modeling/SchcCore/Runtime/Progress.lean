import SchcCore.Runtime.Link

/- What the link can still do. While both processes run, a packet that crosses the link can be
   delivered: nothing but the network and the operating system stands in its way. -/
namespace SchcCore
open Outcome

section
variable {Addr : Type} [DecidableEq Addr]

/- Rounds that pass. -/

theorem Process.step_passed {process : Process Addr} {operationLimit : Option Nat}
    {operation : TransportOperation} {successfulOperations : Nat} {answers : RoundAnswers Addr}
    (passed : judgeResult operation (process.perform operation answers).result = .passed)
    (open' : reachedLimit successfulOperations operationLimit = false) :
    process.step operationLimit (.running operation successfulOperations) answers =
      .running operation.other successfulOperations := by
  simp only [step]
  rw [runOne_judge, passed]
  simp [open']

/-- A packet is there to read, and the link takes all of its frame. -/
def RoundAnswers.offering (packet : List UInt8) (source : Addr) (frame : List UInt8) :
    RoundAnswers Addr :=
  { RoundAnswers.silent with packet := .ok (packet, source), linkSent := .ok frame.length }

/-- A datagram is there to receive, and all of its packet is taken. -/
def RoundAnswers.arriving (frame : List UInt8) (source : Addr) (packet : List UInt8) :
    RoundAnswers Addr :=
  { RoundAnswers.silent with datagram := .ok (frame, source), packetSent := .ok packet.length }

theorem Process.perform_offering {process : Process Addr} {p : Ipv6Packet} {encoded : EncodedResult}
    (sent : process.node.outbound p.bytes = .ok encoded)
    (short : p.bytes.length ≤ receiveBufferBytes) (source : Addr) :
    process.perform .outbound (.offering p.bytes source encoded.frame.bytes) =
        ⟨.ok ⟨.outbound, encoded.ruleId, p.bytes.length, encoded.frame.bytes.length⟩,
          some encoded.frame.bytes⟩ ∧
      process.reads (.offering p.bytes source encoded.frame.bytes) = some p.bytes := by
  have buffer : receiveBufferBytes ≤ process.mode.buffer := by
    cases process <;> simp [mode, receiveBufferBytes, maxIpv6PacketBytes]
  have whole : p.bytes.take process.mode.buffer = p.bytes :=
    List.take_of_length_le (Nat.le_trans short buffer)
  have prepared : prepareOutbound process.mode.failures process.node p.bytes =
      .ok ⟨encoded.frame.bytes, encoded.ruleId, p.bytes.length⟩ :=
    prepareOutbound_ok.mpr ⟨p, encoded, Ipv6Packet.parse_bytes p, sent, rfl⟩
  constructor
  · simp [perform_outbound, RoundAnswers.offering, fromIo, whole, prepared, SchcCore.perform,
      Outgoing.complete]
  · simp [reads_eq, RoundAnswers.offering, Except.map, Except.toOption, whole]

theorem Process.perform_arriving {process : Process Addr} {frame : List UInt8}
    {decoded : DecodedResult} (received : process.node.inbound frame = .ok decoded)
    {q : Ipv6Packet} (complete : q.bytes = decoded.packet)
    (short : frame.length ≤ receiveBufferBytes) :
    process.perform .inbound (.arriving frame process.linkPeer decoded.packet) =
      ⟨.ok ⟨.inbound, decoded.ruleId, frame.length, decoded.packet.length⟩,
        some decoded.packet⟩ := by
  have whole : frame.take receiveBufferBytes = frame := List.take_of_length_le short
  have prepared : prepareInbound process.mode.failures process.node process.linkPeer frame
      process.linkPeer = .ok ⟨decoded.packet, decoded.ruleId, frame.length⟩ :=
    prepareInbound_ok.mpr ⟨rfl, decoded, q, received, Ipv6Packet.parse_eq_ok.mpr complete, rfl⟩
  simp [perform_inbound, RoundAnswers.arriving, fromIo, whole, prepared, SchcCore.perform,
    Outgoing.complete]

/-- A loop after one more success. -/
def LoopState.counted (operationLimit : Option Nat) (operation : TransportOperation)
    (successfulOperations : Nat) : LoopState Addr :=
  if Process.reachedLimit (successfulOperations + 1) operationLimit then .returned
  else .running operation.other (successfulOperations + 1)

omit [DecidableEq Addr] in
theorem LoopState.counted_running {operationLimit : Option Nat} {operation : TransportOperation}
    {successfulOperations : Nat}
    (room : ∀ limit, operationLimit = some limit → successfulOperations + 1 < limit) :
    (counted operationLimit operation successfulOperations : LoopState Addr) =
      .running operation.other (successfulOperations + 1) := by
  cases operationLimit with
  | none => rfl
  | some limit =>
    have below : ¬ limit ≤ successfulOperations + 1 := Nat.not_le.mpr (room limit rfl)
    simp [counted, Process.reachedLimit, below]

theorem Process.step_counted {process : Process Addr} {operationLimit : Option Nat}
    {operation : TransportOperation} {successfulOperations : Nat} {answers : RoundAnswers Addr}
    {report : TransportReport} (done : (process.perform operation answers).result = .ok report) :
    process.step operationLimit (.running operation successfulOperations) answers =
      .counted operationLimit operation successfulOperations := by
  simp only [step]
  rw [runOne_judge, done]
  rfl

namespace Link
variable {link : Link Addr} {state : LinkState Addr}

/-- A loop that runs has not reached its limit. -/
def Open (link : Link Addr) (state : LinkState Addr) : Prop :=
  ∀ role operation successfulOperations,
    state.loops role = .running operation successfulOperations →
      Process.reachedLimit successfulOperations (link.operationLimit role) = false

theorem open_step {process : Process Addr} {operationLimit : Option Nat}
    {operation next : TransportOperation} {count total : Nat} {answers : RoundAnswers Addr}
    (runs : process.step operationLimit (.running operation count) answers = .running next total) :
    Process.reachedLimit total operationLimit = false := by
  simp only [Process.step] at runs
  split at runs
  · split at runs
    · cases runs
    · rename_i below
      cases runs
      simpa using below
  · cases runs

theorem Reachable.opens (reached : link.Reachable state) : link.Open state := by
  induction reached with
  | refl =>
    intro role operation count running
    simp only [Link.initial, Process.start] at running
    split at running
    · cases running
    · rename_i positive
      cases running
      cases limit : link.operationLimit role with
      | none => rfl
      | some bound =>
        have : bound ≠ 0 := fun zero => positive (by rw [limit, zero])
        simp only [Process.reachedLimit, ge_iff_le, decide_eq_false_iff_not]
        omega
  | tail before step ih =>
    obtain ⟨own, operation, count, answers, running, possible⟩ := step
    intro role next total runs
    rw [link.after_loops] at runs
    by_cases here : role = own
    · subst here
      rw [Function.update_self, running] at runs
      exact open_step runs
    · rw [Function.update_of_ne here] at runs
      exact ih role next total runs

/-- A running loop can let its operation time out. -/
theorem Reachable.idle (reached : link.Reachable state) {role : NodeRole}
    {operation : TransportOperation} {count : Nat}
    (running : state.loops role = .running operation count) :
    ∃ next, Relation.ReflTransGen link.Step state next ∧ next.wire = state.wire ∧ next.accepted = state.accepted ∧
      next.delivered = state.delivered ∧
      next.loops = Function.update state.loops role (.running operation.other count) := by
  obtain ⟨handed, passed⟩ := (link.ends role).perform_silent operation
  have step : link.Step state _ := .operate state role operation count .silent running
    (fun _ bytes source arrived => by cases arrived)
  refine ⟨_, Relation.ReflTransGen.single step, ?_, ?_, ?_, ?_⟩
  · cases operation <;> simp [after, handed]
  · cases operation <;> simp [after, handed]
  · cases operation <;> simp [after, handed]
  · rw [link.after_loops, running, Process.step_passed passed (reached.opens role _ _ running)]

/-- A running loop can be brought to either operation. -/
theorem Reachable.ready (reached : link.Reachable state) {role : NodeRole}
    {operation : TransportOperation} {count : Nat}
    (running : state.loops role = .running operation count) (wanted : TransportOperation) :
    ∃ next, Relation.ReflTransGen link.Step state next ∧ next.wire = state.wire ∧ next.accepted = state.accepted ∧
      next.delivered = state.delivered ∧ next.loops role = .running wanted count ∧
      ∀ other, other ≠ role → next.loops other = state.loops other := by
  by_cases there : operation = wanted
  · subst there
    exact ⟨state, .refl, rfl, rfl, rfl, running, fun _ _ => rfl⟩
  · have other : operation.other = wanted := by
      cases operation <;> cases wanted
      · exact absurd rfl there
      · rfl
      · rfl
      · exact absurd rfl there
    obtain ⟨next, idled, wire, accepted, delivered, loops⟩ := reached.idle running
    refine ⟨next, idled, wire, accepted, delivered, ?_, ?_⟩
    · rw [loops, Function.update_self, other]
    · intro role' different
      rw [loops, Function.update_of_ne different]

/-- A packet that is read is accepted, and its frame is sent. -/
theorem sends {role : NodeRole} {count : Nat}
    (running : state.loops role = .running .outbound count) {p : Ipv6Packet}
    {encoded : EncodedResult} (sent : (link.ends role).node.outbound p.bytes = .ok encoded)
    (short : p.bytes.length ≤ receiveBufferBytes)
    (fits : encoded.frame.bytes.length ≤ udpPayloadBytes) :
    ∃ next, Relation.ReflTransGen link.Step state next ∧
      next.wire = state.wire ++
        [⟨(link.ends role).linkBind, (link.ends role).linkPeer, encoded.frame.bytes⟩] ∧
      next.accepted = Function.update state.accepted role (state.accepted role ++ [p.bytes]) ∧
      next.delivered = state.delivered ∧
      next.loops = Function.update state.loops role
        (.counted (link.operationLimit role) .outbound count) := by
  obtain ⟨performed, read⟩ :=
    Process.perform_offering sent short (link.ends role).linkBind
  have step : link.Step state _ := .operate state role .outbound count
    (.offering p.bytes (link.ends role).linkBind encoded.frame.bytes) running
    (fun inbound => by cases inbound)
  refine ⟨_, Relation.ReflTransGen.single step, ?_, ?_, ?_, ?_⟩
  · simp [after, performed, fits]
  · simp [after, performed, read]
  · simp [after, performed]
  · rw [link.after_loops, running, Process.step_counted (congrArg Performed.result performed)]

/-- A frame on the network that the node decodes is delivered. -/
theorem receives {role : NodeRole} {count : Nat}
    (running : state.loops role = .running .inbound count) {frame : List UInt8}
    (there : ⟨(link.ends role).linkPeer, (link.ends role).linkBind, frame⟩ ∈ state.wire)
    (fits : frame.length ≤ udpPayloadBytes) {decoded : DecodedResult}
    (received : (link.ends role).node.inbound frame = .ok decoded) {q : Ipv6Packet}
    (complete : q.bytes = decoded.packet) :
    ∃ next, Relation.ReflTransGen link.Step state next ∧ next.accepted = state.accepted ∧
      next.delivered = Function.update state.delivered role (state.delivered role ++ [q.bytes]) ∧
      next.loops = Function.update state.loops role
        (.counted (link.operationLimit role) .inbound count) := by
  have performed := Process.perform_arriving received complete (Nat.le_trans fits (by decide))
  have possible : link.Possible state role
      (.arriving frame (link.ends role).linkPeer decoded.packet) := by
    intro bytes source arrived other own
    cases arrived
    exact there
  have step : link.Step state _ := .operate state role .inbound count
    (.arriving frame (link.ends role).linkPeer decoded.packet) running (fun _ => possible)
  refine ⟨_, Relation.ReflTransGen.single step, ?_, ?_, ?_⟩
  · simp [after, performed]
  · simp [after, performed, complete]
  · rw [link.after_loops, running, Process.step_counted (congrArg Performed.result performed)]

/- Crossings. -/

/-- A packet that an end reads whole, that fits a datagram once it is encoded, and that comes out at
    the other end as a packet. -/
structure Crosses (link : Link Addr) (role : NodeRole) (p q : Ipv6Packet) : Prop where
  short : p.bytes.length ≤ receiveBufferBytes
  fits : ∀ encoded, (link.ends role.peer).node.outbound p.bytes = .ok encoded →
    encoded.frame.bytes.length ≤ udpPayloadBytes
  arrives : link.carry role p.bytes = some q.bytes

/-- While both loops run, a packet crosses, and each loop counts one more success. -/
theorem Reachable.crosses (reached : link.Reachable state) {role : NodeRole}
    {a b : TransportOperation} {given taken : Nat}
    (sending : state.loops role.peer = .running a given)
    (receiving : state.loops role = .running b taken) {p q : Ipv6Packet}
    (crosses : link.Crosses role p q) :
    ∃ next, Relation.ReflTransGen link.Step state next ∧
      next.accepted =
        Function.update state.accepted role.peer (state.accepted role.peer ++ [p.bytes]) ∧
      next.delivered = Function.update state.delivered role (state.delivered role ++ [q.bytes]) ∧
      next.loops role.peer = .counted (link.operationLimit role.peer) .outbound given ∧
      next.loops role = .counted (link.operationLimit role) .inbound taken := by
  have apart : role ≠ role.peer := by cases role <;> simp [NodeRole.peer]
  have back : role.peer.peer = role := by cases role <;> rfl
  obtain ⟨ruleId, crossed⟩ := carry_some crosses.arrives
  rw [transfer, bind_eq_ok] at crossed
  obtain ⟨encoded, sent, received⟩ := crossed
  have fits := crosses.fits encoded sent
  -- the sender is brought to its outbound operation, the receiver to its inbound one
  obtain ⟨first, run₁, wire₁, accepted₁, delivered₁, ready₁, others₁⟩ :=
    reached.ready sending .outbound
  rw [← others₁ role apart] at receiving
  obtain ⟨second, run₂, wire₂, accepted₂, delivered₂, ready₂, others₂⟩ :=
    Reachable.ready (reached.trans run₁) receiving .inbound
  rw [← others₂ role.peer (Ne.symm apart)] at ready₁
  obtain ⟨third, run₃, wire₃, accepted₃, delivered₃, loops₃⟩ :=
    sends ready₁ sent crosses.short fits
  rw [← Function.update_of_ne apart (.counted (link.operationLimit role.peer) .outbound given)
    second.loops, ← loops₃] at ready₂
  have there : ⟨(link.ends role).linkPeer, (link.ends role).linkBind, encoded.frame.bytes⟩ ∈
      third.wire := by
    have target := link.wired role.peer
    rw [back] at target
    rw [wire₃, link.wired role, target]
    simp
  obtain ⟨last, run₄, accepted₄, delivered₄, loops₄⟩ :=
    receives ready₂ there fits received rfl
  refine ⟨last, ((run₁.trans run₂).trans run₃).trans run₄, ?_, ?_, ?_, ?_⟩
  · rw [accepted₄, accepted₃, accepted₂, accepted₁]
  · rw [delivered₄, delivered₃, delivered₂, delivered₁]
  · rw [loops₄, Function.update_of_ne (Ne.symm apart), loops₃, Function.update_self]
  · rw [loops₄, Function.update_self]

end Link

end

end SchcCore
