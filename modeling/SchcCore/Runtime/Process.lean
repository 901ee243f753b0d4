import SchcCore.Lib.Polling
import SchcCore.Runtime.Transport

/- The node process. It alternates between sending and receiving, passes over timeouts and over what
   it can recover from, and ends at the operation limit or at any other error. -/
namespace SchcCore
open Outcome Polling

/- Which errors end the process. -/

def IoErrorKind.isIdle : IoErrorKind → Bool
  | .timedOut => true
  | .wouldBlock => true
  | .other => false

section
variable {Addr : Type}

def isTimeout : UdpError Addr → Bool
  | .io source => source.kind.isIdle
  | _ => false

def isRecoverable : UdpError Addr → Bool
  | .invalidIpv6 _ => true
  | .runtime _ => true
  | .unexpectedLinkPeer _ _ => true
  | _ => false

/-- An idle device is a timeout of the operation that reads from it only. -/
def isPacketTimeout (operation : TransportOperation) : PacketTransportError Addr → Bool
  | .io source => source.kind.isIdle
  | .device (.io source) => operation = .outbound && source.kind.isIdle
  | _ => false

def isPacketRecoverable : PacketTransportError Addr → Bool
  | .invalidIpv6 _ => true
  | .runtime _ => true
  | .unexpectedLinkPeer _ _ => true
  | _ => false

/-- The number of successful operations after one more, or the error that ends the process. -/
def runOne {ε : Type} (timeout recoverable : ε → Bool)
    (result : Outcome ε PanicSite TransportReport) (successfulOperations : Nat) :
    Outcome ε PanicSite Nat :=
  match result with
  | .ok _ => .ok (successfulOperations + 1)
  | .error (.fail error) =>
      if timeout error then .ok successfulOperations
      else if recoverable error then .ok successfulOperations
      else .error (.fail error)
  | .error (.panic site) => .error (.panic site)

def runUdpOne (result : Outcome (UdpError Addr) PanicSite TransportReport)
    (successfulOperations : Nat) : Outcome (UdpError Addr) PanicSite Nat :=
  runOne isTimeout isRecoverable result successfulOperations

def runTunOne (operation : TransportOperation)
    (result : Outcome (PacketTransportError Addr) PanicSite TransportReport)
    (successfulOperations : Nat) : Outcome (PacketTransportError Addr) PanicSite Nat :=
  runOne (isPacketTimeout operation) isPacketRecoverable result successfulOperations

end

/- The loop. -/

def TransportOperation.other : TransportOperation → TransportOperation
  | .outbound => .inbound
  | .inbound => .outbound

/-- A node with its packets on a UDP socket, or on a TUN device. -/
inductive Process (Addr : Type) where
  | udp (transport : UdpTransport Addr)
  | tun (transport : PacketTransport Addr)

/-- `Box<dyn Error>` -/
inductive ProcessError (Addr : Type) where
  | udp (error : UdpError Addr)
  | tun (error : PacketTransportError Addr)
  deriving DecidableEq

/-- What the operating system answers in one round: to reading a packet, to sending on the link, to
    receiving from the link and to handing a packet over. -/
structure RoundAnswers (Addr : Type) where
  packet : Except IoError (List UInt8 × Addr)
  linkSent : Except IoError Nat
  datagram : Except IoError (List UInt8 × Addr)
  packetSent : Except IoError Nat

inductive LoopState (Addr : Type) where
  | running (next : TransportOperation) (successfulOperations : Nat)
  | returned
  | failed (halt : Halt (ProcessError Addr) PanicSite)
  deriving DecidableEq

namespace Process
variable {Addr : Type}

def node : Process Addr → LinkNode
  | .udp transport => transport.node
  | .tun transport => transport.node

def linkBind : Process Addr → Addr
  | .udp transport => transport.config.linkBind
  | .tun transport => transport.config.linkBind

def linkPeer : Process Addr → Addr
  | .udp transport => transport.config.linkPeer
  | .tun transport => transport.config.linkPeer

variable [DecidableEq Addr]

/-- The outbound or the inbound operation of the transport. -/
def perform (process : Process Addr) (operation : TransportOperation) (answers : RoundAnswers Addr) :
    Performed (ProcessError Addr) :=
  match process, operation with
  | .udp transport, .outbound =>
      let performed := transport.outboundOnce answers.packet answers.linkSent
      ⟨mapFail .udp performed.result, performed.handed⟩
  | .udp transport, .inbound =>
      let performed := transport.inboundOnce answers.datagram answers.packetSent
      ⟨mapFail .udp performed.result, performed.handed⟩
  | .tun transport, .outbound =>
      let performed := transport.outboundOnce
        (LinuxTunDevice.readPacket (answers.packet.map Prod.fst)) answers.linkSent
      ⟨mapFail .tun performed.result, performed.handed⟩
  | .tun transport, .inbound =>
      let performed := transport.inboundOnce answers.datagram
        (LinuxTunDevice.writePacket answers.packetSent)
      ⟨mapFail .tun performed.result, performed.handed⟩

/-- `run_udp_one(…, outbound_once(), …)` and the three calls like it. -/
def runOne (process : Process Addr) (operation : TransportOperation) (answers : RoundAnswers Addr)
    (successfulOperations : Nat) : Outcome (ProcessError Addr) PanicSite Nat :=
  match process, operation with
  | .udp transport, .outbound =>
      mapFail .udp (runUdpOne (transport.outboundOnce answers.packet answers.linkSent).result
        successfulOperations)
  | .udp transport, .inbound =>
      mapFail .udp (runUdpOne (transport.inboundOnce answers.datagram answers.packetSent).result
        successfulOperations)
  | .tun transport, .outbound =>
      mapFail .tun (runTunOne .outbound (transport.outboundOnce
        (LinuxTunDevice.readPacket (answers.packet.map Prod.fst)) answers.linkSent).result
        successfulOperations)
  | .tun transport, .inbound =>
      mapFail .tun (runTunOne .inbound (transport.inboundOnce answers.datagram
        (LinuxTunDevice.writePacket answers.packetSent)).result successfulOperations)

def reachedLimit (successfulOperations : Nat) : Option Nat → Bool
  | some limit => successfulOperations ≥ limit
  | none => false

/-- `run_udp_loop` and `run_tun_loop` before the first round. -/
def start (operationLimit : Option Nat) : LoopState Addr :=
  if operationLimit = some 0 then .returned else .running .outbound 0

/-- Half a round of `run_udp_loop` or `run_tun_loop`. -/
def step (process : Process Addr) (operationLimit : Option Nat) (state : LoopState Addr)
    (answers : RoundAnswers Addr) : LoopState Addr :=
  match state with
  | .running operation successfulOperations =>
      match process.runOne operation answers successfulOperations with
      | .ok successfulOperations =>
          if reachedLimit successfulOperations operationLimit then .returned
          else .running operation.other successfulOperations
      | .error halt => .failed halt
  | .returned => .returned
  | .failed halt => .failed halt

def run (process : Process Addr) (operationLimit : Option Nat) (answers : List (RoundAnswers Addr)) :
    LoopState Addr :=
  answers.foldl (process.step operationLimit) (start operationLimit)

/-- What a process hands over in a run, operation by operation. -/
def emits (process : Process Addr) (operationLimit : Option Nat) :
    LoopState Addr → List (RoundAnswers Addr) → List (TransportOperation × List UInt8)
  | _, [] => []
  | state, answers :: rest =>
      (match state with
        | .running operation _ =>
            ((process.perform operation answers).handed.map (Prod.mk operation)).toList
        | _ => []) ++
      process.emits operationLimit (process.step operationLimit state answers) rest

end Process

/- Both modes at once. -/

/-- What sets the errors and the buffers of the two modes apart. -/
structure ProcessMode (Addr : Type) where
  buffer : Nat
  failures : TransportFailures Addr (ProcessError Addr)
  linkIo : IoError → ProcessError Addr
  linkShort : Nat → Nat → ProcessError Addr
  packetIo : IoError → ProcessError Addr
  packetShort : Nat → Nat → ProcessError Addr

namespace Process
variable {Addr : Type}

def mode : Process Addr → ProcessMode Addr
  | .udp _ =>
      { buffer := receiveBufferBytes
        failures := ⟨fun error => .udp (.invalidIpv6 error), fun error => .udp (.runtime error),
          fun expected actual => .udp (.unexpectedLinkPeer expected actual)⟩
        linkIo := fun error => .udp (.io error)
        linkShort := fun expected actual => .udp (.shortSend expected actual)
        packetIo := fun error => .udp (.io error)
        packetShort := fun expected actual => .udp (.shortSend expected actual) }
  | .tun _ =>
      { buffer := maxIpv6PacketBytes
        failures := ⟨fun error => .tun (.invalidIpv6 error), fun error => .tun (.runtime error),
          fun expected actual => .tun (.unexpectedLinkPeer expected actual)⟩
        linkIo := fun error => .tun (.io error)
        linkShort := fun expected actual => .tun (.shortSend expected actual)
        packetIo := fun error => .tun (.device (.io error))
        packetShort := fun expected actual => .tun (.shortWrite expected actual) }

theorem mapFail_perform {ε : Type} (box : ε → ProcessError Addr)
    (prepared : Outcome ε PanicSite Outgoing)
    (complete : Outgoing → Outcome ε PanicSite TransportReport) :
    (⟨mapFail box (SchcCore.perform prepared complete).result,
        (SchcCore.perform prepared complete).handed⟩ : Performed (ProcessError Addr)) =
      SchcCore.perform (mapFail box prepared) fun outgoing => mapFail box (complete outgoing) := by
  rcases prepared with (error | site) | outgoing <;> rfl

theorem mapFail_complete {ε δ : Type} (box : ε → ProcessError Addr) (outgoing : Outgoing)
    (operation : TransportOperation) (io : δ → ε) (short : Nat → Nat → ε) (answer : Except δ Nat) :
    mapFail box (outgoing.complete operation io short answer) =
      outgoing.complete operation (fun error => box (io error))
        (fun expected actual => box (short expected actual)) answer := by
  unfold Outgoing.complete
  cases answer with
  | error error => rfl
  | ok taken =>
    dsimp only
    split <;> rfl

theorem complete_writePacket {ε : Type} (outgoing : Outgoing) (operation : TransportOperation)
    (io : PacketDeviceError → ε) (short : Nat → Nat → ε) (answer : Except IoError Nat) :
    outgoing.complete operation io short (LinuxTunDevice.writePacket answer) =
      outgoing.complete operation (fun error => io (.io error)) short answer := by
  cases answer <;> rfl

theorem mapFail_prepareOutbound {ε : Type} (box : ε → ProcessError Addr)
    (failures : TransportFailures Addr ε) (node : LinkNode) (packet : List UInt8) :
    mapFail box (prepareOutbound failures node packet) =
      prepareOutbound ⟨fun error => box (failures.invalidIpv6 error),
        fun error => box (failures.runtime error),
        fun expected actual => box (failures.unexpectedLinkPeer expected actual)⟩ node packet := by
  unfold prepareOutbound
  rcases Ipv6Packet.parse packet with (error | site) | p
  · rfl
  · rfl
  · rcases node.outbound packet with (error | site) | encoded <;> rfl

variable [DecidableEq Addr]

theorem mapFail_prepareInbound {ε : Type} (box : ε → ProcessError Addr)
    (failures : TransportFailures Addr ε) (node : LinkNode) (linkPeer : Addr)
    (compressed : List UInt8) (source : Addr) :
    mapFail box (prepareInbound failures node linkPeer compressed source) =
      prepareInbound ⟨fun error => box (failures.invalidIpv6 error),
        fun error => box (failures.runtime error),
        fun expected actual => box (failures.unexpectedLinkPeer expected actual)⟩ node linkPeer
        compressed source := by
  unfold prepareInbound
  split
  · rfl
  · rcases node.inbound compressed with (error | site) | decoded
    · rfl
    · rfl
    · rcases parsed : Ipv6Packet.parse decoded.packet with (error | site) | p <;>
        simp [mapFail, parsed]

theorem perform_outbound (process : Process Addr) (answers : RoundAnswers Addr) :
    process.perform .outbound answers =
      SchcCore.perform
        (fromIo process.mode.packetIo answers.packet >>= fun received =>
          prepareOutbound process.mode.failures process.node (received.1.take process.mode.buffer))
        (fun outgoing =>
          outgoing.complete .outbound process.mode.linkIo process.mode.linkShort answers.linkSent) := by
  cases process with
  | udp transport =>
    simp only [perform, UdpTransport.outboundOnce, mapFail_perform, mapFail_complete]
    cases answers.packet with
    | error error => rfl
    | ok received =>
      simp only [fromIo, ok_bind, mapFail_prepareOutbound]
      rfl
  | tun transport =>
    simp only [perform, PacketTransport.outboundOnce, mapFail_perform, mapFail_complete]
    cases answers.packet with
    | error error => rfl
    | ok received =>
      simp only [fromIo, Except.map, LinuxTunDevice.readPacket, ok_bind, mapFail_prepareOutbound]
      rfl

theorem perform_inbound (process : Process Addr) (answers : RoundAnswers Addr) :
    process.perform .inbound answers =
      SchcCore.perform
        (fromIo process.mode.linkIo answers.datagram >>= fun received =>
          prepareInbound process.mode.failures process.node process.linkPeer
            (received.1.take receiveBufferBytes) received.2)
        (fun outgoing =>
          outgoing.complete .inbound process.mode.packetIo process.mode.packetShort
            answers.packetSent) := by
  cases process with
  | udp transport =>
    simp only [perform, UdpTransport.inboundOnce, mapFail_perform, mapFail_complete]
    cases answers.datagram with
    | error error => rfl
    | ok received =>
      simp only [fromIo, ok_bind, mapFail_prepareInbound]
      rfl
  | tun transport =>
    simp only [perform, PacketTransport.inboundOnce, mapFail_perform, mapFail_complete,
      complete_writePacket]
    cases answers.datagram with
    | error error => rfl
    | ok received =>
      simp only [fromIo, ok_bind, mapFail_prepareInbound]
      rfl

end Process

/- The loop polls. -/

/-- The first operation is outbound, and they alternate. -/
def TransportOperation.ofRound (round : Nat) : TransportOperation :=
  if round % 2 = 0 then .outbound else .inbound

theorem TransportOperation.ofRound_succ (round : Nat) :
    ofRound (round + 1) = (ofRound round).other := by
  unfold ofRound
  rcases Nat.mod_two_eq_zero_or_one round with even | odd
  · have next : ¬ (round + 1) % 2 = 0 := by omega
    rw [if_pos even, if_neg next]
    rfl
  · have here : ¬ round % 2 = 0 := by omega
    have next : (round + 1) % 2 = 0 := by omega
    rw [if_neg here, if_pos next]
    rfl

/-- An error that a process passes over in an operation. -/
def ProcessError.isDropped {Addr : Type} (operation : TransportOperation) :
    ProcessError Addr → Bool
  | .udp error => isTimeout error || isRecoverable error
  | .tun error => isPacketTimeout operation error || isPacketRecoverable error

namespace Process
variable {Addr : Type}

@[simp] theorem isDropped_failures (process : Process Addr) (operation : TransportOperation) :
    (∀ error, (process.mode.failures.invalidIpv6 error).isDropped operation = true) ∧
      (∀ error, (process.mode.failures.runtime error).isDropped operation = true) ∧
      ∀ expected actual,
        (process.mode.failures.unexpectedLinkPeer expected actual).isDropped operation = true := by
  cases process <;> exact ⟨fun _ => rfl, fun _ => rfl, fun _ _ => rfl⟩

@[simp] theorem isDropped_linkIo (process : Process Addr) (operation : TransportOperation)
    (error : IoError) : (process.mode.linkIo error).isDropped operation = error.kind.isIdle := by
  cases process <;> simp [mode, ProcessError.isDropped, isTimeout, isRecoverable, isPacketTimeout,
    isPacketRecoverable]

@[simp] theorem isDropped_packetIo_outbound (process : Process Addr) (error : IoError) :
    (process.mode.packetIo error).isDropped .outbound = error.kind.isIdle := by
  cases process <;> simp [mode, ProcessError.isDropped, isTimeout, isRecoverable, isPacketTimeout,
    isPacketRecoverable]

end Process

def judgeResult {Addr : Type} (operation : TransportOperation)
    (result : Outcome (ProcessError Addr) PanicSite TransportReport) :
    Verdict (Halt (ProcessError Addr) PanicSite) :=
  match result with
  | .ok _ => .counted
  | .error (.fail error) => if error.isDropped operation then .passed else .fatal (.fail error)
  | .error (.panic site) => .fatal (.panic site)

def LoopState.ofPolling {Addr : Type} :
    Polling.State (Halt (ProcessError Addr) PanicSite) → LoopState Addr
  | .running round count => .running (.ofRound round) count
  | .returned => .returned
  | .failed halt => .failed halt

namespace Process
variable {Addr : Type} [DecidableEq Addr]

def judge (process : Process Addr) (round : Nat) (answers : RoundAnswers Addr) :
    Verdict (Halt (ProcessError Addr) PanicSite) :=
  judgeResult (.ofRound round) (process.perform (.ofRound round) answers).result

omit [DecidableEq Addr] in
theorem runOne_eq_judge {ε : Type} {timeout recoverable : ε → Bool} {box : ε → ProcessError Addr}
    {operation : TransportOperation}
    (boxed : ∀ error, (box error).isDropped operation = (timeout error || recoverable error))
    (result : Outcome ε PanicSite TransportReport) (successfulOperations : Nat) :
    mapFail box (SchcCore.runOne timeout recoverable result successfulOperations) =
      match judgeResult operation (mapFail box result) with
      | .counted => .ok (successfulOperations + 1)
      | .passed => .ok successfulOperations
      | .fatal halt => .error halt := by
  rcases result with (error | site) | report
  · simp only [SchcCore.runOne, mapFail, judgeResult, boxed]
    cases timeout error <;> cases recoverable error <;> rfl
  · rfl
  · rfl

/-- Every round does what its verdict says. -/
theorem runOne_judge (process : Process Addr) (operation : TransportOperation)
    (answers : RoundAnswers Addr) (successfulOperations : Nat) :
    process.runOne operation answers successfulOperations =
      match judgeResult operation (process.perform operation answers).result with
      | .counted => .ok (successfulOperations + 1)
      | .passed => .ok successfulOperations
      | .fatal halt => .error halt := by
  cases process with
  | udp transport => cases operation <;> exact runOne_eq_judge (fun _ => rfl) _ _
  | tun transport => cases operation <;> exact runOne_eq_judge (fun _ => rfl) _ _

theorem step_ofPolling (process : Process Addr) (operationLimit : Option Nat)
    (state : Polling.State (Halt (ProcessError Addr) PanicSite)) (answers : RoundAnswers Addr) :
    process.step operationLimit (.ofPolling state) answers =
      .ofPolling (Polling.step process.judge operationLimit state answers) := by
  cases state with
  | returned => rfl
  | failed halt => rfl
  | running round count =>
    have settles : ∀ total, (if reachedLimit total operationLimit then LoopState.returned
        else .running (TransportOperation.ofRound round).other total : LoopState Addr) =
        .ofPolling (Polling.settle operationLimit (round + 1) total) := by
      intro total
      cases operationLimit with
      | none => simp [reachedLimit, settle, reached, LoopState.ofPolling,
          TransportOperation.ofRound_succ]
      | some limit =>
        by_cases full : limit ≤ total
        · simp [reachedLimit, settle, reached, full, LoopState.ofPolling]
        · simp [reachedLimit, settle, reached, full, LoopState.ofPolling,
            TransportOperation.ofRound_succ]
    simp only [Process.step, LoopState.ofPolling, runOne_judge, Polling.step, judge]
    cases judgeResult (.ofRound round) (process.perform (.ofRound round) answers).result with
    | counted => exact settles _
    | passed => exact settles _
    | fatal halt => rfl

/-- The loop of the process is the polling loop. -/
theorem run_eq_polling (process : Process Addr) (operationLimit : Option Nat)
    (answers : List (RoundAnswers Addr)) :
    process.run operationLimit answers =
      .ofPolling (Polling.run process.judge operationLimit answers) := by
  have begins : (start operationLimit : LoopState Addr) =
      .ofPolling (Polling.start operationLimit) := by
    unfold start Polling.start
    split <;> rfl
  induction answers using List.reverseRecOn with
  | nil => exact begins
  | append_singleton answers last ih =>
    rw [run_append, ← step_ofPolling, ← ih, run, List.foldl_append]
    rfl

theorem running_iff {process : Process Addr} {operationLimit : Option Nat}
    {answers : List (RoundAnswers Addr)} {operation : TransportOperation}
    {successfulOperations : Nat} :
    process.run operationLimit answers = .running operation successfulOperations ↔
      Quiet process.judge answers ∧ Below operationLimit (successes process.judge 0 answers) ∧
        operation = .ofRound answers.length ∧
        successfulOperations = successes process.judge 0 answers := by
  rw [run_eq_polling]
  cases state : Polling.run process.judge operationLimit answers with
  | running round count =>
    obtain ⟨quiet, below, rfl, rfl⟩ := (run_running_iff answers round count).mp state
    simp [LoopState.ofPolling, quiet, below, eq_comm]
  | returned | failed =>
    simp only [LoopState.ofPolling, reduceCtorEq, false_iff]
    rintro ⟨quiet, below, -, -⟩
    have running := (run_running_iff answers answers.length _).mpr ⟨quiet, below, rfl, rfl⟩
    rw [state] at running
    cases running

theorem failed_iff {process : Process Addr} {operationLimit : Option Nat}
    {answers : List (RoundAnswers Addr)} {halt : Halt (ProcessError Addr) PanicSite} :
    process.run operationLimit answers = .failed halt ↔
      ∃ before last after, answers = before ++ last :: after ∧ Quiet process.judge before ∧
        Below operationLimit (successes process.judge 0 before) ∧
        process.judge before.length last = .fatal halt := by
  rw [run_eq_polling, ← run_failed_iff]
  cases Polling.run process.judge operationLimit answers <;> simp [LoopState.ofPolling]

end Process

/-- A process runs on while every operation succeeds or fails with an error that it passes over; it
    returns with the very operation whose success brings the count to the limit, and ends in error
    with the first other error before that. -/
theorem process_run_iff {Addr : Type} [DecidableEq Addr] (process : Process Addr)
    (operationLimit : Option Nat) (answers : List (RoundAnswers Addr)) :
    (∀ operation successfulOperations,
      process.run operationLimit answers = .running operation successfulOperations ↔
        Quiet process.judge answers ∧ Below operationLimit (successes process.judge 0 answers) ∧
          operation = .ofRound answers.length ∧
          successfulOperations = successes process.judge 0 answers) ∧
    (process.run operationLimit answers = .returned ↔ operationLimit = some 0 ∨
      ∃ before last after, answers = before ++ last :: after ∧ Quiet process.judge before ∧
        (∃ report, (process.perform (.ofRound before.length) last).result = .ok report) ∧
        operationLimit = some (successes process.judge 0 before + 1)) ∧
    (∀ halt, process.run operationLimit answers = .failed halt ↔
      ∃ before last after, answers = before ++ last :: after ∧ Quiet process.judge before ∧
        Below operationLimit (successes process.judge 0 before) ∧
        (process.perform (.ofRound before.length) last).result = .error halt ∧
        ∀ error, halt = .fail error → error.isDropped (.ofRound before.length) = false) := by
  have counted : ∀ round last, process.judge round last = .counted ↔
      ∃ report, (process.perform (.ofRound round) last).result = .ok report := by
    intro round last
    rw [Process.judge]
    rcases (process.perform (.ofRound round) last).result with (error | site) | report
    · simp only [judgeResult, reduceCtorEq, exists_false, iff_false]
      split <;> simp
    · simp [judgeResult]
    · simp [judgeResult]
  have fatal : ∀ round last halt, process.judge round last = .fatal halt ↔
      (process.perform (.ofRound round) last).result = .error halt ∧
        ∀ error, halt = .fail error → error.isDropped (.ofRound round) = false := by
    intro round last halt
    rw [Process.judge]
    rcases (process.perform (.ofRound round) last).result with (error | site) | report
    · by_cases dropped : error.isDropped (.ofRound round)
      · simp only [judgeResult, dropped, ↓reduceIte, reduceCtorEq, Except.error.injEq, false_iff]
        rintro ⟨rfl, kept⟩
        exact absurd dropped (by simp [kept error rfl])
      · simp only [judgeResult, dropped, Bool.false_eq_true, ↓reduceIte, Verdict.fatal.injEq,
          Except.error.injEq]
        constructor
        · rintro rfl
          exact ⟨rfl, fun other same => by cases same; simpa using dropped⟩
        · exact fun ended => ended.1
    · simp only [judgeResult, Verdict.fatal.injEq, Except.error.injEq]
      constructor
      · rintro rfl
        exact ⟨rfl, fun other same => by cases same⟩
      · exact fun ended => ended.1
    · simp [judgeResult]
  refine ⟨fun operation successfulOperations => Process.running_iff, ?_, fun halt => ?_⟩
  · have polled : Polling.run process.judge operationLimit answers = .returned ↔ _ :=
      run_returned_iff answers
    simp only [counted] at polled
    rw [← polled, Process.run_eq_polling]
    cases Polling.run process.judge operationLimit answers <;> simp [LoopState.ofPolling]
  · rw [Process.failed_iff]
    simp only [fatal]

/- Strangers. -/

/-- The answers with a datagram that is not the peer's replaced by a timeout. -/
def RoundAnswers.ignoring {Addr : Type} [DecidableEq Addr] (linkPeer : Addr)
    (answers : RoundAnswers Addr) : RoundAnswers Addr :=
  match answers.datagram with
  | .ok (_, source) =>
      if source = linkPeer then answers
      else { answers with datagram := .error ⟨.timedOut, "timed out"⟩ }
  | .error _ => answers

namespace Process
variable {Addr : Type} [DecidableEq Addr]

/-- A stranger's datagram is dropped before anything is made of it. -/
theorem perform_stranger (process : Process Addr) {answers : RoundAnswers Addr}
    {compressed : List UInt8} {source : Addr} (arrived : answers.datagram = .ok (compressed, source))
    (stranger : source ≠ process.linkPeer) :
    (process.perform .inbound answers).handed = none ∧
      judgeResult .inbound (process.perform .inbound answers).result = .passed := by
  simp only [perform_inbound, arrived, fromIo, ok_bind, prepareInbound, stranger, ne_eq,
    not_false_eq_true, ↓reduceIte, SchcCore.perform, judgeResult,
    (process.isDropped_failures .inbound).2.2, and_self]

theorem perform_timeout (process : Process Addr) {answers : RoundAnswers Addr} {text : String}
    (idle : answers.datagram = .error ⟨.timedOut, text⟩) :
    (process.perform .inbound answers).handed = none ∧
      judgeResult .inbound (process.perform .inbound answers).result = .passed := by
  simp [perform_inbound, idle, fromIo, SchcCore.perform, judgeResult, IoErrorKind.isIdle]

/-- Sending does not look at what arrives. -/
theorem perform_outbound_ignoring (process : Process Addr) (linkPeer : Addr)
    (answers : RoundAnswers Addr) :
    process.perform .outbound (answers.ignoring linkPeer) = process.perform .outbound answers := by
  have same : (answers.ignoring linkPeer).packet = answers.packet ∧
      (answers.ignoring linkPeer).linkSent = answers.linkSent := by
    unfold RoundAnswers.ignoring
    split
    · split <;> exact ⟨rfl, rfl⟩
    · exact ⟨rfl, rfl⟩
  rw [perform_outbound, perform_outbound, same.1, same.2]

/-- An operation comes to the same with a stranger's datagram as with none. -/
theorem perform_ignoring (process : Process Addr) (operation : TransportOperation)
    (answers : RoundAnswers Addr) :
    (process.perform operation (answers.ignoring process.linkPeer)).handed =
        (process.perform operation answers).handed ∧
      judgeResult operation (process.perform operation (answers.ignoring process.linkPeer)).result =
        judgeResult operation (process.perform operation answers).result := by
  cases operation with
  | outbound =>
    rw [perform_outbound_ignoring]
    exact ⟨rfl, rfl⟩
  | inbound =>
    cases arrived : answers.datagram with
    | error error =>
      have same : answers.ignoring process.linkPeer = answers := by
        simp [RoundAnswers.ignoring, arrived]
      rw [same]
      exact ⟨rfl, rfl⟩
    | ok received =>
      obtain ⟨compressed, source⟩ := received
      by_cases peer : source = process.linkPeer
      · have same : answers.ignoring process.linkPeer = answers := by
          simp [RoundAnswers.ignoring, arrived, peer]
        rw [same]
        exact ⟨rfl, rfl⟩
      · have idle : (answers.ignoring process.linkPeer).datagram =
            .error ⟨.timedOut, "timed out"⟩ := by
          simp [RoundAnswers.ignoring, arrived, peer]
        obtain ⟨handed, verdict⟩ := process.perform_stranger arrived peer
        obtain ⟨handed', verdict'⟩ := process.perform_timeout idle
        rw [handed, handed', verdict, verdict']
        exact ⟨rfl, rfl⟩

theorem step_ignoring (process : Process Addr) (operationLimit : Option Nat)
    (state : LoopState Addr) (answers : RoundAnswers Addr) :
    process.step operationLimit state (answers.ignoring process.linkPeer) =
      process.step operationLimit state answers := by
  cases state with
  | returned => rfl
  | failed halt => rfl
  | running operation successfulOperations =>
    simp only [Process.step]
    rw [runOne_judge, runOne_judge, (process.perform_ignoring operation answers).2]

end Process

/-- What strangers send changes nothing: in every run a process ends where it would have ended, and
    hands over what it would have handed over, had their datagrams been timeouts. -/
theorem strangers_change_nothing {Addr : Type} [DecidableEq Addr] (process : Process Addr)
    (operationLimit : Option Nat) (answers : List (RoundAnswers Addr)) :
    process.run operationLimit (answers.map (RoundAnswers.ignoring process.linkPeer)) =
        process.run operationLimit answers ∧
      process.emits operationLimit (Process.start operationLimit)
          (answers.map (RoundAnswers.ignoring process.linkPeer)) =
        process.emits operationLimit (Process.start operationLimit) answers := by
  have runs : ∀ state : LoopState Addr,
      (answers.map (RoundAnswers.ignoring process.linkPeer)).foldl (process.step operationLimit)
          state = answers.foldl (process.step operationLimit) state ∧
        process.emits operationLimit state
            (answers.map (RoundAnswers.ignoring process.linkPeer)) =
          process.emits operationLimit state answers := by
    induction answers with
    | nil => exact fun state => ⟨rfl, rfl⟩
    | cons answer answers ih =>
      intro state
      obtain ⟨ends, emitted⟩ := ih (process.step operationLimit state answer)
      simp only [List.map_cons, List.foldl_cons, Process.emits, process.step_ignoring]
      refine ⟨ends, ?_⟩
      rw [emitted]
      cases state with
      | returned => rfl
      | failed halt => rfl
      | running operation successfulOperations =>
        simp only [(process.perform_ignoring operation answer).1]
  exact runs (Process.start operationLimit)

end SchcCore
