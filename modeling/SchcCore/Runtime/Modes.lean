import SchcCore.Runtime.Process

/- The two modes of the process. Over the same node, link and answers of the operating system a
   process on a TUN device does what one on a UDP socket does, except that a device that would
   block on a packet ends it. -/
namespace SchcCore
open Outcome Polling

/-- The same node on the same link, in either mode. -/
structure SameLink {Addr : Type} (udp : UdpTransport Addr) (tun : PacketTransport Addr) : Prop where
  node : udp.node = tun.node
  linkPeer : udp.config.linkPeer = tun.config.linkPeer

/-- A packet that is read fits the receive buffer of a UDP socket. -/
def RoundAnswers.Fits {Addr : Type} (answers : RoundAnswers Addr) : Prop :=
  ∀ packet source, answers.packet = .ok (packet, source) → packet.length ≤ receiveBufferBytes

/-- Handing a packet over is put off. -/
def RoundAnswers.Blocks {Addr : Type} (answers : RoundAnswers Addr) : Prop :=
  ∃ error, answers.packetSent = .error error ∧ error.kind.isIdle

/-- Verdicts that are the same but for the error. -/
inductive SameVerdict {ε δ : Type} : Verdict ε → Verdict δ → Prop where
  | counted : SameVerdict .counted .counted
  | passed : SameVerdict .passed .passed
  | fatal (error : ε) (other : δ) : SameVerdict (.fatal error) (.fatal other)

/-- Loops that are at the same place, or have stopped alike. -/
inductive LoopState.Agrees {Addr : Type} : LoopState Addr → LoopState Addr → Prop where
  | running (operation : TransportOperation) (successfulOperations : Nat) :
      Agrees (.running operation successfulOperations) (.running operation successfulOperations)
  | returned : Agrees .returned .returned
  | failed (halt other : Halt (ProcessError Addr) PanicSite) : Agrees (.failed halt) (.failed other)

/- One operation. -/

section
variable {Addr : Type}

/-- The results of one operation in the two modes. -/
structure SameRound (operation : TransportOperation) (a : Performed (UdpError Addr))
    (b : Performed (PacketTransportError Addr)) : Prop where
  handed : a.handed = b.handed
  verdict : SameVerdict (judgeResult operation (mapFail .udp a.result))
    (judgeResult operation (mapFail .tun b.result))

theorem sameVerdict_fail {operation : TransportOperation} {a : UdpError Addr}
    {b : PacketTransportError Addr}
    (same : (ProcessError.udp a).isDropped operation = (ProcessError.tun b).isDropped operation) :
    SameVerdict
      (judgeResult operation (mapFail .udp (.error (.fail a) : Outcome _ PanicSite TransportReport)))
      (judgeResult operation
        (mapFail .tun (.error (.fail b) : Outcome _ PanicSite TransportReport))) := by
  simp only [judgeResult, mapFail, same]
  split
  · exact .passed
  · exact .fatal _ _

/-- Preparation fails alike, or prepares the same bytes. -/
inductive SamePrepared (operation : TransportOperation) :
    Outcome (UdpError Addr) PanicSite Outgoing →
    Outcome (PacketTransportError Addr) PanicSite Outgoing → Prop where
  | ready (outgoing : Outgoing) : SamePrepared operation (.ok outgoing) (.ok outgoing)
  | fail (a : UdpError Addr) (b : PacketTransportError Addr) :
      (ProcessError.udp a).isDropped operation = (ProcessError.tun b).isDropped operation →
      SamePrepared operation (.error (.fail a)) (.error (.fail b))
  | panic (site : PanicSite) :
      SamePrepared operation (.error (.panic site)) (.error (.panic site))

theorem SamePrepared.bind {operation : TransportOperation} {α : Type} {x : Result α}
    {named : SchcError → UdpError Addr} {other : SchcError → PacketTransportError Addr}
    (same : ∀ error, (ProcessError.udp (named error)).isDropped operation =
      (ProcessError.tun (other error)).isDropped operation)
    {f : α → Outcome (UdpError Addr) PanicSite Outgoing}
    {g : α → Outcome (PacketTransportError Addr) PanicSite Outgoing}
    (rest : ∀ a, SamePrepared operation (f a) (g a)) :
    SamePrepared operation (mapFail named x >>= f) (mapFail other x >>= g) := by
  rcases x with (error | site) | a
  · exact .fail _ _ (same error)
  · exact .panic site
  · exact rest a

theorem SamePrepared.bindRuntime {operation : TransportOperation} {α : Type} {x : RuntimeResult α}
    {f : α → Outcome (UdpError Addr) PanicSite Outgoing}
    {g : α → Outcome (PacketTransportError Addr) PanicSite Outgoing}
    (rest : ∀ a, SamePrepared operation (f a) (g a)) :
    SamePrepared operation (mapFail UdpError.runtime x >>= f)
      (mapFail PacketTransportError.runtime x >>= g) := by
  rcases x with (error | site) | a
  · exact .fail _ _ rfl
  · exact .panic site
  · exact rest a

theorem samePrepared_outbound (node : LinkNode) (packet : List UInt8) :
    SamePrepared .outbound
      (prepareOutbound (UdpTransport.failures : TransportFailures Addr _) node packet)
      (prepareOutbound PacketTransport.failures node packet) := by
  apply SamePrepared.bind (fun _ => rfl)
  intro _
  apply SamePrepared.bindRuntime
  intro encoded
  exact .ready _

theorem samePrepared_inbound [DecidableEq Addr] (node : LinkNode) (linkPeer : Addr)
    (compressed : List UInt8) (source : Addr) :
    SamePrepared .inbound
      (prepareInbound UdpTransport.failures node linkPeer compressed source)
      (prepareInbound PacketTransport.failures node linkPeer compressed source) := by
  unfold prepareInbound
  by_cases stranger : source ≠ linkPeer
  · rw [if_pos stranger, if_pos stranger]
    exact .fail _ _ rfl
  · rw [if_neg stranger, if_neg stranger]
    apply SamePrepared.bindRuntime
    intro decoded
    apply SamePrepared.bind (fun _ => rfl)
    intro _
    exact .ready _

/-- Prepared alike and completed alike, an operation is the same in both modes. -/
theorem SamePrepared.perform {operation : TransportOperation}
    {a : Outcome (UdpError Addr) PanicSite Outgoing}
    {b : Outcome (PacketTransportError Addr) PanicSite Outgoing}
    (same : SamePrepared operation a b)
    {f : Outgoing → Outcome (UdpError Addr) PanicSite TransportReport}
    {g : Outgoing → Outcome (PacketTransportError Addr) PanicSite TransportReport}
    (completed : ∀ outgoing, a = .ok outgoing → SameVerdict
      (judgeResult operation (mapFail .udp (f outgoing)))
      (judgeResult operation (mapFail .tun (g outgoing)))) :
    SameRound operation (SchcCore.perform a f) (SchcCore.perform b g) := by
  cases same with
  | ready outgoing => exact ⟨rfl, completed outgoing rfl⟩
  | fail a b dropped => exact ⟨rfl, sameVerdict_fail dropped⟩
  | panic site => exact ⟨rfl, .fatal _ _⟩

theorem sameVerdict_complete {operation : TransportOperation} {δ δ' : Type} {io : δ → UdpError Addr}
    {io' : δ' → PacketTransportError Addr} {short : Nat → Nat → UdpError Addr}
    {short' : Nat → Nat → PacketTransportError Addr} {answer : Except δ Nat}
    {answer' : Except δ' Nat}
    (shorts : ∀ expected actual, (ProcessError.udp (short expected actual)).isDropped operation =
      (ProcessError.tun (short' expected actual)).isDropped operation)
    (answers : (∃ taken, answer = .ok taken ∧ answer' = .ok taken) ∨
      ∃ error error', answer = .error error ∧ answer' = .error error' ∧
        (ProcessError.udp (io error)).isDropped operation =
          (ProcessError.tun (io' error')).isDropped operation)
    (outgoing : Outgoing) :
    SameVerdict (judgeResult operation (mapFail .udp (outgoing.complete operation io short answer)))
      (judgeResult operation (mapFail .tun (outgoing.complete operation io' short' answer'))) := by
  rcases answers with ⟨taken, rfl, rfl⟩ | ⟨error, error', rfl, rfl, same⟩
  · simp only [Outgoing.complete]
    split
    · exact sameVerdict_fail (shorts _ _)
    · exact .counted
  · exact sameVerdict_fail same

end

section
variable {Addr : Type} [DecidableEq Addr] {udp : UdpTransport Addr} {tun : PacketTransport Addr}

omit [DecidableEq Addr] in
theorem outbound_sameRound (link : SameLink udp tun) {answers : RoundAnswers Addr}
    (fits : answers.Fits) :
    SameRound .outbound (udp.outboundOnce answers.packet answers.linkSent)
      (tun.outboundOnce (LinuxTunDevice.readPacket (answers.packet.map Prod.fst))
        answers.linkSent) := by
  apply SamePrepared.perform
  · rcases read : answers.packet with error | ⟨packet, source⟩
    · exact .fail _ _ (by simp [ProcessError.isDropped, isTimeout, isRecoverable, isPacketTimeout,
        isPacketRecoverable])
    · have short := fits packet source read
      have buffer : packet.length ≤ maxIpv6PacketBytes := Nat.le_trans short (by decide)
      have whole : packet.take receiveBufferBytes = packet := List.take_of_length_le short
      have whole' : packet.take maxIpv6PacketBytes = packet := List.take_of_length_le buffer
      simp only [fromIo, ok_bind, Except.map, LinuxTunDevice.readPacket, whole, whole', link.node]
      exact samePrepared_outbound _ _
  · intro outgoing _
    apply sameVerdict_complete (fun _ _ => rfl)
    cases answers.linkSent with
    | ok taken => exact .inl ⟨taken, rfl, rfl⟩
    | error error => exact .inr ⟨error, error, rfl, rfl, rfl⟩

theorem inbound_sameRound (link : SameLink udp tun) {answers : RoundAnswers Addr}
    (free : (udp.inboundOnce answers.datagram answers.packetSent).handed ≠ none →
      ¬ answers.Blocks) :
    SameRound .inbound (udp.inboundOnce answers.datagram answers.packetSent)
      (tun.inboundOnce answers.datagram (LinuxTunDevice.writePacket answers.packetSent)) := by
  apply SamePrepared.perform
  · rcases answers.datagram with error | ⟨compressed, source⟩
    · exact .fail _ _ rfl
    · simp only [fromIo, ok_bind, link.node, link.linkPeer]
      exact samePrepared_inbound _ _ _ _
  · intro outgoing prepared
    have busy : ¬ answers.Blocks := by
      apply free
      rw [UdpTransport.inboundOnce, prepared]
      simp [perform]
    apply sameVerdict_complete (fun _ _ => rfl)
    cases written : answers.packetSent with
    | ok taken => exact .inl ⟨taken, rfl, rfl⟩
    | error error =>
      have busy : error.kind.isIdle = false := by
        by_contra idle
        exact busy ⟨error, written, by simpa using idle⟩
      exact .inr ⟨error, .io error, rfl, rfl, by
        simp [ProcessError.isDropped, isTimeout, isRecoverable, isPacketTimeout,
          isPacketRecoverable, busy]⟩

/-- A round is the same in both modes, unless a packet would block the device. -/
theorem perform_sameRound (link : SameLink udp tun) {operation : TransportOperation}
    {answers : RoundAnswers Addr} (fits : operation = .outbound → answers.Fits)
    (free : operation = .inbound → ((Process.udp udp).perform operation answers).handed ≠ none →
      ¬ answers.Blocks) :
    ((Process.udp udp).perform operation answers).handed =
        ((Process.tun tun).perform operation answers).handed ∧
      SameVerdict (judgeResult operation ((Process.udp udp).perform operation answers).result)
        (judgeResult operation ((Process.tun tun).perform operation answers).result) := by
  cases operation with
  | outbound =>
    have same := outbound_sameRound link (fits rfl)
    exact ⟨same.handed, same.verdict⟩
  | inbound =>
    have same := inbound_sameRound link (free rfl)
    exact ⟨same.handed, same.verdict⟩

theorem step_agrees {process other : Process Addr} {operationLimit : Option Nat}
    {operation : TransportOperation} {successfulOperations : Nat} {answers : RoundAnswers Addr}
    (same : SameVerdict (judgeResult operation (process.perform operation answers).result)
      (judgeResult operation (other.perform operation answers).result)) :
    (process.step operationLimit (.running operation successfulOperations) answers).Agrees
      (other.step operationLimit (.running operation successfulOperations) answers) := by
  simp only [Process.step]
  rw [Process.runOne_judge, Process.runOne_judge]
  generalize judgeResult operation (process.perform operation answers).result = a at same ⊢
  generalize judgeResult operation (other.perform operation answers).result = b at same ⊢
  cases same with
  | counted =>
    dsimp only
    split
    · exact .returned
    · exact .running _ _
  | passed =>
    dsimp only
    split
    · exact .returned
    · exact .running _ _
  | fatal error other => exact .failed _ _

/-- A packet that this round reads is not longer than the buffer of a socket, and one that it hands
    over does not block the device. -/
def RoundUnblocked (process : Process Addr) (answer : RoundAnswers Addr) : LoopState Addr → Prop
  | .running .outbound _ => answer.Fits
  | .running .inbound _ => (process.perform .inbound answer).handed ≠ none → ¬ answer.Blocks
  | .returned => True
  | .failed _ => True

/-- So it is in every round of a run. -/
def Unblocked (process : Process Addr) (operationLimit : Option Nat) :
    LoopState Addr → List (RoundAnswers Addr) → Prop
  | _, [] => True
  | state, answer :: answers => RoundUnblocked process answer state ∧
      Unblocked process operationLimit (process.step operationLimit state answer) answers

theorem run_agrees (link : SameLink udp tun) {operationLimit : Option Nat}
    {answers : List (RoundAnswers Addr)} {state other : LoopState Addr}
    (unblocked : Unblocked (.udp udp) operationLimit state answers) (agrees : state.Agrees other) :
    (answers.foldl ((Process.udp udp).step operationLimit) state).Agrees
        (answers.foldl ((Process.tun tun).step operationLimit) other) ∧
      (Process.udp udp).emits operationLimit state answers =
        (Process.tun tun).emits operationLimit other answers := by
  induction answers generalizing state other with
  | nil => exact ⟨agrees, rfl⟩
  | cons answer answers ih =>
    obtain ⟨round, later⟩ := unblocked
    simp only [List.foldl_cons, Process.emits]
    cases agrees with
    | returned =>
      obtain ⟨ended, emitted⟩ := ih later .returned
      exact ⟨ended, by simpa [Process.step] using emitted⟩
    | failed halt other =>
      obtain ⟨ended, emitted⟩ := ih later (.failed halt other)
      exact ⟨ended, by simpa [Process.step] using emitted⟩
    | running operation successfulOperations =>
      have same : ((Process.udp udp).perform operation answer).handed =
            ((Process.tun tun).perform operation answer).handed ∧
          SameVerdict (judgeResult operation ((Process.udp udp).perform operation answer).result)
            (judgeResult operation ((Process.tun tun).perform operation answer).result) := by
        apply perform_sameRound link
        · rintro rfl
          exact round
        · rintro rfl
          exact round
      obtain ⟨handed, verdict⟩ := same
      have steps : ((Process.udp udp).step operationLimit
          (.running operation successfulOperations) answer).Agrees _ := step_agrees verdict
      obtain ⟨ended, emitted⟩ := ih later steps
      exact ⟨ended, by simp only [handed, emitted]⟩

/-- A packet that the device would block on: a process on a socket drops it and goes on, one on a
    device ends. -/
theorem blocked_round (link : SameLink udp tun) {answers : RoundAnswers Addr}
    (handed : ((Process.udp udp).perform .inbound answers).handed ≠ none)
    (blocks : answers.Blocks) :
    (∀ successfulOperations,
      (Process.udp udp).runOne .inbound answers successfulOperations = .ok successfulOperations) ∧
    ∃ error, ∀ successfulOperations,
      (Process.tun tun).runOne .inbound answers successfulOperations =
        .error (.fail (.tun (.device (.io error)))) := by
  obtain ⟨error, answer, idle⟩ := blocks
  rcases prepared : answers.datagram with failure | ⟨compressed, source⟩
  · simp [Process.perform, UdpTransport.inboundOnce, prepared, fromIo, perform] at handed
  · have same := samePrepared_inbound udp.node udp.config.linkPeer
      (compressed.take receiveBufferBytes) source
    simp only [Process.perform, UdpTransport.inboundOnce, prepared, fromIo, ok_bind] at handed
    simp only [Process.runOne, UdpTransport.inboundOnce, PacketTransport.inboundOnce, prepared,
      fromIo, ok_bind, ← link.node, ← link.linkPeer]
    generalize prepareInbound UdpTransport.failures udp.node udp.config.linkPeer
      (compressed.take receiveBufferBytes) source = a at same handed ⊢
    generalize prepareInbound PacketTransport.failures udp.node udp.config.linkPeer
      (compressed.take receiveBufferBytes) source = b at same ⊢
    cases same with
    | ready outgoing =>
      simp only [perform, Outgoing.complete, answer, LinuxTunDevice.writePacket, runUdpOne,
        runTunOne, SchcCore.runOne, isTimeout, idle, isPacketTimeout, isPacketRecoverable, mapFail]
      exact ⟨fun _ => rfl, error, fun _ => rfl⟩
    | fail a b => simp [perform] at handed
    | panic site => simp [perform] at handed

/-- Fed the same answers, a process on a TUN device does what one on a UDP socket does, round for
    round, as long as no packet would block the device; one that would ends it. -/
theorem modes_agree (link : SameLink udp tun) (operationLimit : Option Nat)
    (answers : List (RoundAnswers Addr)) :
    (Unblocked (.udp udp) operationLimit (Process.start operationLimit) answers →
      ((Process.udp udp).run operationLimit answers).Agrees
          ((Process.tun tun).run operationLimit answers) ∧
        (Process.udp udp).emits operationLimit (Process.start operationLimit) answers =
          (Process.tun tun).emits operationLimit (Process.start operationLimit) answers) ∧
    ∀ last : RoundAnswers Addr, ((Process.udp udp).perform .inbound last).handed ≠ none → last.Blocks →
      ∀ successfulOperations,
        (Process.udp udp).run operationLimit answers = .running .inbound successfulOperations →
        (Process.tun tun).run operationLimit answers = .running .inbound successfulOperations →
        (Process.udp udp).run operationLimit (answers ++ [last]) =
            .running .outbound successfulOperations ∧
          ∃ error, (Process.tun tun).run operationLimit (answers ++ [last]) =
            .failed (.fail (.tun (.device (.io error)))) := by
  constructor
  · intro unblocked
    apply run_agrees link unblocked
    unfold Process.start
    split
    · exact .returned
    · exact .running _ _
  · intro last handed blocks successfulOperations here there
    obtain ⟨dropped, error, ends⟩ := blocked_round link handed blocks
    have open' : Process.reachedLimit successfulOperations operationLimit = false := by
      obtain ⟨-, below, -, rfl⟩ := Process.running_iff.mp here
      cases operationLimit with
      | none => rfl
      | some limit => simpa [Process.reachedLimit] using below limit rfl
    constructor
    · rw [Process.run, List.foldl_append]
      change (Process.udp udp).step operationLimit ((Process.udp udp).run operationLimit answers)
        last = _
      simp only [here, Process.step, dropped, open']
      rfl
    · refine ⟨error, ?_⟩
      rw [Process.run, List.foldl_append]
      change (Process.tun tun).step operationLimit ((Process.tun tun).run operationLimit answers)
        last = _
      simp only [there, Process.step, ends]

end

/-- An empty IPv6 packet is read while the link is silent, then its frame arrives from the peer. -/
def wrapperAnswers (packetSent : Except IoError Nat) : RoundAnswers Nat :=
  ⟨.ok ([0x60, 0, 0, 0, 0, 0, 59, 64] ++ List.replicate 32 0, 9), .ok 41,
    .ok ([0x36, 0, 0, 0, 0, 0, 0x03, 0xb4, 0] ++ List.replicate 32 0, 2), packetSent⟩

theorem modes_agree_at_wrapper :
    ((Process.udp wrapperUdp).run none [wrapperAnswers (.ok 40), wrapperAnswers (.ok 40)]).Agrees
        ((Process.tun (wrapperTun .core 1 2)).run none
          [wrapperAnswers (.ok 40), wrapperAnswers (.ok 40)]) ∧
      ∃ error, (Process.tun (wrapperTun .core 1 2)).run none
          [wrapperAnswers (.ok 40), wrapperAnswers (.error ⟨.wouldBlock, "would block"⟩)] =
        .failed (.fail (.tun (.device (.io error)))) := by
  have link : SameLink wrapperUdp (wrapperTun .core 1 2) := ⟨rfl, rfl⟩
  constructor
  · refine ((modes_agree link none [wrapperAnswers (.ok 40), wrapperAnswers (.ok 40)]).1 ?_).1
    have reads : (Process.udp wrapperUdp).step none (.running .outbound 0) (wrapperAnswers (.ok 40)) =
        .running .inbound 1 := by decide +kernel
    change RoundUnblocked _ _ (.running .outbound 0) ∧ Unblocked _ _
      ((Process.udp wrapperUdp).step none (.running .outbound 0) (wrapperAnswers (.ok 40))) _
    rw [reads]
    refine ⟨?_, ?_, trivial⟩
    · intro packet source read
      cases read
      decide
    · rintro - ⟨error, written, -⟩
      cases written
  · have handed : ((Process.udp wrapperUdp).perform .inbound
        (wrapperAnswers (.error ⟨.wouldBlock, "would block"⟩))).handed ≠ none := by decide +kernel
    exact (((modes_agree link none [wrapperAnswers (.ok 40)]).2 _ handed ⟨_, rfl, rfl⟩) 1
      (by decide +kernel) (by decide +kernel)).2

end SchcCore
