import SchcCore.Runtime.Exchange
import SchcCore.Runtime.Process

/- What ends a process before its limit. No packet and no stranger's datagram does: only the
   operating system, or a datagram from the peer whose decoding does not return. -/
namespace SchcCore
open Outcome Polling

/- Decoding a datagram. -/

theorem fromCore_bind_panic_iff {α β : Type} {x : Result α} {f : α → β} {site : PanicSite} :
    (fromCore x >>= fun a => .ok (f a) : RuntimeResult β) = .error (.panic site) ↔
      x = panicAt site := by
  rcases x with (error | other) | a
  · simp [fromCore, panicAt]
  · simp [fromCore, panicAt]
  · simp [fromCore, panicAt]

/-- A node panics exactly on the datagrams that some padding nests calls without end in. -/
theorem LinkNode.Over.inbound_panic_iff {node : LinkNode} {ctx : RuleContext}
    {profile : DeviceProfile} (built : node.Over ctx profile) {compressed : List UInt8}
    {site : PanicSite} :
    node.inbound compressed = .error (.panic site) ↔
      site = .stackOverflow ∧ ∃ bitLen, Permissible compressed bitLen ∧
        Decompressor.Nests ⟨ctx, some profile.value⟩ node.role.position compressed bitLen := by
  have returns : ReturnsUnless (∃ bitLen, Permissible compressed bitLen ∧
        Decompressor.Nests ⟨ctx, some profile.value⟩ node.role.position compressed bitLen)
      (Decompressor.decompressDetailed ⟨ctx, some profile.value⟩ node.role.position compressed) :=
    Decompressor.decompressDetailed_returns
  have same : node.inbound compressed = .error (.panic site) ↔
      Decompressor.decompressDetailed ⟨ctx, some profile.value⟩ node.role.position compressed =
        panicAt site := by
    rw [LinkNode.inbound_eq, built.decompressor]
    exact fromCore_bind_panic_iff
  rw [same]
  constructor
  · intro panicked
    refine ⟨returns.site site panicked, ?_⟩
    by_contra never
    exact returns.returns.mpr never site panicked
  · rintro ⟨rfl, endless⟩
    by_contra other
    apply returns.returns.not.mpr (not_not.mpr endless)
    intro site panicked
    obtain rfl := returns.site site panicked
    exact other panicked

section
variable {Addr : Type} [DecidableEq Addr]

/- Operations that panic. -/

/-- An outbound operation of a node over a loaded context returns. -/
theorem Process.outbound_safe {process : Process Addr} {ctx : RuleContext} (loaded : ctx.Loaded)
    {profile : DeviceProfile} (built : process.node.Over ctx profile) (answers : RoundAnswers Addr)
    (site : PanicSite) :
    (process.perform .outbound answers).result ≠ .error (.panic site) := by
  have safe : ∀ packet, Safe (process.node.outbound packet) := by
    intro packet
    rw [LinkNode.outbound_eq]
    apply safe_bind (safe_fromCore (Compressor.wellTyped_compress loaded.valid built.compressor packet
      process.node.role.direction).safe)
    intro compressed _
    apply safe_bind ?_ fun _ _ => safe_ok _
    cases SchcFrame.new compressed.bytes compressed.bitLen with
    | ok frame => exact safe_ok _
    | error error => exact safe_fail _
  rw [perform_outbound]
  intro panicked
  have prepared := perform_panic (fun outgoing => outgoing.safe_complete _ _ _ _) panicked
  cases read : answers.packet with
  | error error =>
    rw [read] at prepared
    cases prepared
  | ok received =>
    rw [read] at prepared
    exact safe _ site (prepareOutbound_panic prepared)

/-- An inbound operation panics exactly when decoding a datagram from the peer does. -/
theorem Process.inbound_panic_iff {process : Process Addr} {answers : RoundAnswers Addr}
    {site : PanicSite} :
    (process.perform .inbound answers).result = .error (.panic site) ↔
      ∃ compressed, answers.datagram = .ok (compressed, process.linkPeer) ∧
        process.node.inbound (compressed.take receiveBufferBytes) = .error (.panic site) := by
  rw [perform_inbound]
  constructor
  · intro panicked
    have prepared := perform_panic (fun outgoing => outgoing.safe_complete _ _ _ _) panicked
    cases arrived : answers.datagram with
    | error error =>
      rw [arrived] at prepared
      cases prepared
    | ok received =>
      rw [arrived] at prepared
      obtain ⟨source, decoded⟩ := prepareInbound_panic prepared
      rw [← source]
      exact ⟨received.1, rfl, decoded⟩
  · rintro ⟨compressed, arrived, decoded⟩
    simp [arrived, fromIo, prepareInbound, decoded, mapFail, SchcCore.perform]

omit [DecidableEq Addr] in
theorem judgeResult_panic_iff {operation : TransportOperation}
    {result : Outcome (ProcessError Addr) PanicSite TransportReport} {site : PanicSite} :
    judgeResult operation result = .fatal (.panic site) ↔ result = .error (.panic site) := by
  rcases result with (error | other) | report
  · simp only [judgeResult]
    split <;> simp
  · simp [judgeResult]
  · simp [judgeResult]

/- Operations that fail for good. -/

/-- The operating system fails a call, or does not take all the bytes. -/
def Untaken (bytes : List UInt8) (answer : Except IoError Nat) (lasting : IoError → Prop) : Prop :=
  (∃ error, answer = .error error ∧ lasting error) ∨
    ∃ taken, answer = .ok taken ∧ taken ≠ bytes.length

def IoError.Lasts (error : IoError) : Prop := error.kind.isIdle = false

/-- A packet that would block counts for a device, and does not for a socket. -/
def Process.Refuses : Process Addr → IoError → Prop
  | .udp _, error => error.Lasts
  | .tun _, _ => True

omit [DecidableEq Addr] in
theorem Process.refuses_iff (process : Process Addr) (error : IoError) :
    process.Refuses error ↔ (process.mode.packetIo error).isDropped .inbound = false := by
  cases process <;> simp [Refuses, IoError.Lasts, mode, ProcessError.isDropped, isTimeout,
    isRecoverable, isPacketTimeout, isPacketRecoverable]

/-- The operating system fails the operation of a round. -/
def Process.Fault (process : Process Addr) (operation : TransportOperation)
    (answers : RoundAnswers Addr) : Prop :=
  match operation with
  | .outbound =>
      (∃ error, answers.packet = .error error ∧ error.Lasts) ∨
        ∃ bytes, (process.perform .outbound answers).handed = some bytes ∧
          Untaken bytes answers.linkSent IoError.Lasts
  | .inbound =>
      (∃ error, answers.datagram = .error error ∧ error.Lasts) ∨
        ∃ bytes, (process.perform .inbound answers).handed = some bytes ∧
          Untaken bytes answers.packetSent process.Refuses

omit [DecidableEq Addr] in
theorem prepareOutbound_dropped {process : Process Addr} {operation : TransportOperation}
    {packet : List UInt8} {error : ProcessError Addr}
    (failed : prepareOutbound process.mode.failures process.node packet = .error (.fail error)) :
    error.isDropped operation = true := by
  unfold prepareOutbound at failed
  rcases parsed : Ipv6Packet.parse packet with (cause | site) | p
  · rw [parsed] at failed
    cases failed
    simp
  · rw [parsed] at failed
    cases failed
  · rw [parsed] at failed
    rcases sent : process.node.outbound packet with (cause | site) | encoded
    · rw [sent] at failed
      cases failed
      simp
    · rw [sent] at failed
      cases failed
    · rw [sent] at failed
      cases failed

theorem prepareInbound_dropped {process : Process Addr} {operation : TransportOperation}
    {compressed : List UInt8} {source : Addr} {error : ProcessError Addr}
    (failed : prepareInbound process.mode.failures process.node process.linkPeer compressed source =
      .error (.fail error)) :
    error.isDropped operation = true := by
  unfold prepareInbound at failed
  split at failed
  · cases failed
    simp
  · rcases received : process.node.inbound compressed with (cause | site) | decoded
    · rw [received] at failed
      cases failed
      simp
    · rw [received] at failed
      cases failed
    · rw [received] at failed
      rcases parsed : Ipv6Packet.parse decoded.packet with (cause | site) | p
      · simp only [mapFail, ok_bind, parsed, error_bind, Except.error.injEq, Halt.fail.injEq]
          at failed
        subst failed
        simp
      · simp [mapFail, parsed] at failed
      · simp [mapFail, parsed] at failed

omit [DecidableEq Addr] in
/-- What was prepared fails for good exactly when the operating system does not take it. -/
theorem judgeResult_complete_iff {operation : TransportOperation} {outgoing : Outgoing}
    {io : IoError → ProcessError Addr} {short : Nat → Nat → ProcessError Addr}
    {answer : Except IoError Nat} {lasting : IoError → Prop}
    (lasts : ∀ error, lasting error ↔ (io error).isDropped operation = false)
    (shorts : ∀ expected actual, (short expected actual).isDropped operation = false) :
    (∃ error, judgeResult operation (outgoing.complete operation io short answer) =
        .fatal (.fail error)) ↔ Untaken outgoing.bytes answer lasting := by
  cases answer with
  | error error =>
    by_cases dropped : (io error).isDropped operation
    · simp [Outgoing.complete, judgeResult, dropped, Untaken, lasts]
    · simp [Outgoing.complete, judgeResult, dropped, Untaken, lasts]
  | ok taken =>
    by_cases all : taken = outgoing.bytes.length
    · simp [Outgoing.complete, judgeResult, all, Untaken]
    · simp [Outgoing.complete, judgeResult, all, Untaken, shorts]

omit [DecidableEq Addr] in
/-- With preparation failures passed over, an operation fails for good exactly when completing
    what was prepared does. -/
theorem judgeResult_perform_iff {operation : TransportOperation}
    {prepared : Outcome (ProcessError Addr) PanicSite Outgoing}
    {complete : Outgoing → Outcome (ProcessError Addr) PanicSite TransportReport}
    (drops : ∀ error, prepared = .error (.fail error) → error.isDropped operation = true) :
    (∃ error, judgeResult operation (perform prepared complete).result = .fatal (.fail error)) ↔
      ∃ outgoing, prepared = .ok outgoing ∧
        ∃ error, judgeResult operation (complete outgoing) = .fatal (.fail error) := by
  rcases prepared with (error | site) | outgoing
  · simp [perform, judgeResult, drops error rfl]
  · simp [perform, judgeResult]
  · simp [perform]

omit [DecidableEq Addr] in
theorem Process.short_lasts (process : Process Addr) (operation : TransportOperation)
    (expected actual : Nat) :
    (process.mode.linkShort expected actual).isDropped operation = false ∧
      (process.mode.packetShort expected actual).isDropped operation = false := by
  cases process <;> exact ⟨rfl, rfl⟩

/-- An operation fails for good exactly when the operating system fails it. -/
theorem Process.fault_iff (process : Process Addr) (operation : TransportOperation)
    (answers : RoundAnswers Addr) :
    (∃ error, judgeResult operation (process.perform operation answers).result =
      .fatal (.fail error)) ↔ process.Fault operation answers := by
  cases operation with
  | outbound =>
    simp only [Fault]
    rw [perform_outbound]
    cases read : answers.packet with
    | error error =>
      by_cases idle : error.kind.isIdle
      · simp [fromIo, SchcCore.perform, judgeResult, idle, IoError.Lasts]
      · simp [fromIo, SchcCore.perform, judgeResult, idle, IoError.Lasts]
    | ok received =>
      simp only [fromIo, ok_bind, perform_handed]
      rw [judgeResult_perform_iff fun error failed => prepareOutbound_dropped failed]
      have completes : ∀ outgoing : Outgoing, (∃ error, judgeResult .outbound
          (outgoing.complete .outbound process.mode.linkIo process.mode.linkShort
            answers.linkSent) = .fatal (.fail error)) ↔
          Untaken outgoing.bytes answers.linkSent IoError.Lasts := fun outgoing =>
        judgeResult_complete_iff (fun error => by simp [IoError.Lasts]) fun expected actual =>
          (process.short_lasts .outbound expected actual).1
      simp only [completes]
      simp
  | inbound =>
    simp only [Fault]
    rw [perform_inbound]
    cases arrived : answers.datagram with
    | error error =>
      by_cases idle : error.kind.isIdle
      · simp [fromIo, SchcCore.perform, judgeResult, idle, IoError.Lasts]
      · simp [fromIo, SchcCore.perform, judgeResult, idle, IoError.Lasts]
    | ok received =>
      simp only [fromIo, ok_bind, perform_handed]
      rw [judgeResult_perform_iff fun error failed => prepareInbound_dropped failed]
      have completes : ∀ outgoing : Outgoing, (∃ error, judgeResult .inbound
          (outgoing.complete .inbound process.mode.packetIo process.mode.packetShort
            answers.packetSent) = .fatal (.fail error)) ↔
          Untaken outgoing.bytes answers.packetSent process.Refuses := fun outgoing =>
        judgeResult_complete_iff process.refuses_iff fun expected actual =>
          (process.short_lasts .inbound expected actual).2
      simp only [completes]
      simp

/- Rounds with nothing to do. -/

def timedOut : IoError := ⟨.timedOut, "timed out"⟩

/-- Nothing arrives, and nothing is taken. -/
def RoundAnswers.silent : RoundAnswers Addr :=
  ⟨.error timedOut, .error timedOut, .error timedOut, .error timedOut⟩

theorem Process.perform_silent (process : Process Addr) (operation : TransportOperation) :
    (process.perform operation .silent).handed = none ∧
      judgeResult operation (process.perform operation .silent).result = .passed := by
  cases process <;> cases operation <;> exact ⟨rfl, rfl⟩

/-- A process ends in error exactly when the operating system fails an operation, and in a panic
    exactly at a datagram from its peer that some padding nests calls without end in: no packet, no
    other datagram and no stranger ends it. -/
theorem process_ends_iff {ctx : RuleContext} (loaded : ctx.Loaded) {process : Process Addr}
    {profile : DeviceProfile} (built : process.node.Over ctx profile) (operationLimit : Option Nat)
    (answers : List (RoundAnswers Addr)) :
    ((∃ error, process.run operationLimit answers = .failed (.fail error)) ↔
      ∃ before last after, answers = before ++ last :: after ∧ Quiet process.judge before ∧
        Below operationLimit (successes process.judge 0 before) ∧
        process.Fault (.ofRound before.length) last) ∧
    ∀ site, process.run operationLimit answers = .failed (.panic site) ↔
      site = .stackOverflow ∧
      ∃ before last after, answers = before ++ last :: after ∧ Quiet process.judge before ∧
        Below operationLimit (successes process.judge 0 before) ∧
        TransportOperation.ofRound before.length = .inbound ∧
        ∃ compressed, last.datagram = .ok (compressed, process.linkPeer) ∧
          ∃ bitLen, Permissible (compressed.take receiveBufferBytes) bitLen ∧
            Decompressor.Nests ⟨ctx, some profile.value⟩ process.node.role.position
              (compressed.take receiveBufferBytes) bitLen := by
  constructor
  · simp only [Process.failed_iff, Process.judge]
    constructor
    · rintro ⟨error, before, last, after, split, quiet, below, fatal⟩
      exact ⟨before, last, after, split, quiet, below,
        (process.fault_iff _ last).mp ⟨error, fatal⟩⟩
    · rintro ⟨before, last, after, split, quiet, below, fault⟩
      obtain ⟨error, fatal⟩ := (process.fault_iff _ last).mpr fault
      exact ⟨error, before, last, after, split, quiet, below, fatal⟩
  · intro site
    simp only [Process.failed_iff, Process.judge, judgeResult_panic_iff]
    constructor
    · rintro ⟨before, last, after, split, quiet, below, panicked⟩
      cases operation : TransportOperation.ofRound before.length with
      | outbound =>
        rw [operation] at panicked
        exact absurd panicked (Process.outbound_safe loaded built last site)
      | inbound =>
        rw [operation] at panicked
        obtain ⟨compressed, arrived, decoded⟩ := Process.inbound_panic_iff.mp panicked
        obtain ⟨overflow, nests⟩ := built.inbound_panic_iff.mp decoded
        exact ⟨overflow, before, last, after, split, quiet, below, operation, compressed, arrived,
          nests⟩
    · rintro ⟨overflow, before, last, after, split, quiet, below, operation, compressed, arrived,
        nests⟩
      refine ⟨before, last, after, split, quiet, below, ?_⟩
      rw [operation]
      exact Process.inbound_panic_iff.mpr
        ⟨compressed, arrived, built.inbound_panic_iff.mpr ⟨overflow, nests⟩⟩

end

/-- Over the nested rule: its one-byte datagram, from the peer. -/
def nestedAnswers : RoundAnswers Nat := { RoundAnswers.silent with datagram := .ok ([1], 2) }

theorem process_ends_at_nested :
    ∃ process : Process Nat,
      (∃ error, process.run none
        [{ RoundAnswers.silent with packet := .error ⟨.other, "closed"⟩ }] =
          .failed (.fail error)) ∧
      process.run none [.silent, nestedAnswers] = .failed (.panic .stackOverflow) := by
  obtain ⟨c, made⟩ := Compressor.new_total nestedContext
  let process : Process Nat :=
    .tun ⟨⟨⟨⟨"nested", by decide⟩, c, ⟨nestedContext, some wrapperProfile.value⟩⟩, .core⟩, ⟨.ok 1⟩,
      ⟨1, 2⟩, rfl⟩
  have built : process.node.Over nestedContext wrapperProfile := by
    rw [LinkNode.Over, Runtime.new, made]
    rfl
  have unlimited : ∀ count, Below none count := by
    intro count limit reached
    cases reached
  refine ⟨process, ?_, ?_⟩
  · apply (process_ends_iff nestedContext_loaded built none _).1.mpr
    refine ⟨[], _, [], rfl, ?_, unlimited _, .inl ⟨_, rfl, rfl⟩⟩
    intro i input found
    simp at found
  · apply ((process_ends_iff nestedContext_loaded built none _).2 _).mpr
    have overflow : Decompressor.decompressWithBitLenDetailed
        ⟨nestedContext, some wrapperProfile.value⟩ .core [1] 8 = panicAt .stackOverflow := by
      decide +kernel
    have nests : Decompressor.Nests ⟨nestedContext, some wrapperProfile.value⟩ .core [1] 8 := by
      by_contra flat
      exact Decompressor.safe_of_not_nests flat _ overflow
    refine ⟨rfl, [.silent], nestedAnswers, [], rfl, ?_, unlimited _, rfl, [1], rfl, 8, ?_, nests⟩
    · intro i input found error
      cases i with
      | zero =>
        cases found
        exact fun fatal => by cases fatal
      | succ i => simp at found
    · refine ⟨by decide, by decide, ?_⟩
      decide

end SchcCore
