import SchcCore.Decompress.NoCompression
import SchcCore.Runtime.Frame

/- The synchronous runtime: one device, a compressor and a decompressor over one rule
   context, and a node of a point-to-point link in front of them. -/
namespace SchcCore
open BitList Outcome

inductive Endpoint where
  | core | device
  deriving DecidableEq, Repr

inductive PacketFlow where
  | uplink | downlink
  deriving DecidableEq, Repr

inductive Operation where
  | encode | decode
  deriving DecidableEq, Repr

inductive IidKind where
  | device | application
  deriving DecidableEq, Repr

inductive DeviceIdError where
  | empty
  deriving DecidableEq, Repr

inductive ProfileError where
  | wrongWidth (iid : IidKind) (actualBytes : Nat)
  deriving DecidableEq, Repr

inductive RuntimeError where
  | invalidPath (operation : Operation) (endpoint : Endpoint) (flow : PacketFlow)
  | wrongDevice
  | invalidFrame (error : FrameError)
  | unsupportedFragmentation (error : SchcError)
  | core (error : SchcError)
  deriving DecidableEq, Repr

abbrev RuntimeResult (α : Type) := Outcome RuntimeError PanicSite α

/-- An opaque, non-empty textual identifier. -/
structure DeviceId where
  text : String
  nonempty : text ≠ ""
  deriving DecidableEq

def DeviceId.new (value : String) : Except DeviceIdError DeviceId :=
  if empty : value = "" then .error .empty else .ok ⟨value, empty⟩

/-- Interface identifiers are exactly eight bytes. -/
structure DeviceProfile where
  deviceIid : Option { bytes : List UInt8 // bytes.length = 8 }
  applicationIid : Option { bytes : List UInt8 // bytes.length = 8 }

def copyIid (value : Option (List UInt8)) (iid : IidKind) :
    Except ProfileError (Option { bytes : List UInt8 // bytes.length = 8 }) :=
  match value with
  | none => .ok none
  | some bytes =>
      if exact : bytes.length = 8 then .ok (some ⟨bytes, exact⟩)
      else .error (.wrongWidth iid bytes.length)

def DeviceProfile.fromBytes (deviceIid applicationIid : Option (List UInt8)) :
    Except ProfileError DeviceProfile := do
  let device ← copyIid deviceIid .device
  let application ← copyIid applicationIid .application
  .ok ⟨device, application⟩

theorem copyIid_eq_ok {value : Option (List UInt8)} {iid : IidKind}
    {copied : Option { bytes : List UInt8 // bytes.length = 8 }} :
    copyIid value iid = .ok copied ↔ copied.map Subtype.val = value := by
  constructor
  · intro made
    unfold copyIid at made
    split at made
    · cases made
      rfl
    · split at made
      · cases made
        rfl
      · cases made
  · rintro rfl
    cases copied with
    | none => rfl
    | some bytes => exact dif_pos bytes.property

theorem copyIid_eq_error {value : Option (List UInt8)} {iid : IidKind} {error : ProfileError} :
    copyIid value iid = .error error ↔
      ∃ bytes, value = some bytes ∧ bytes.length ≠ 8 ∧ error = .wrongWidth iid bytes.length := by
  cases value with
  | none => simp [copyIid]
  | some bytes =>
    by_cases exact : bytes.length = 8
    · simp [copyIid, exact]
    · simp [copyIid, exact, eq_comm]

/-- A profile is made of exactly the bytes given, and of no identifier of another width. -/
theorem DeviceProfile.fromBytes_eq_ok {deviceIid applicationIid : Option (List UInt8)}
    {profile : DeviceProfile} :
    fromBytes deviceIid applicationIid = .ok profile ↔
      profile.deviceIid.map Subtype.val = deviceIid ∧
        profile.applicationIid.map Subtype.val = applicationIid := by
  unfold fromBytes
  rw [← @copyIid_eq_ok deviceIid .device, ← @copyIid_eq_ok applicationIid .application]
  cases copyIid deviceIid .device with
  | error error => simp [bind, Except.bind]
  | ok device =>
    cases copyIid applicationIid .application with
    | error error => simp [bind, Except.bind]
    | ok application => cases profile; simp [bind, Except.bind]

/-- The error names the first identifier of another width, and that width. -/
theorem DeviceProfile.fromBytes_eq_error {deviceIid applicationIid : Option (List UInt8)}
    {error : ProfileError} :
    fromBytes deviceIid applicationIid = .error error ↔
      (∃ bytes, deviceIid = some bytes ∧ bytes.length ≠ 8 ∧
        error = .wrongWidth .device bytes.length) ∨
      (∃ device, copyIid deviceIid .device = .ok device) ∧
        ∃ bytes, applicationIid = some bytes ∧ bytes.length ≠ 8 ∧
          error = .wrongWidth .application bytes.length := by
  unfold fromBytes
  rw [← copyIid_eq_error, ← copyIid_eq_error]
  cases copyIid deviceIid .device with
  | error error => simp [bind, Except.bind]
  | ok device =>
    cases copyIid applicationIid .application with
    | error error => simp [bind, Except.bind]
    | ok application => simp [bind, Except.bind]

/-- `DeviceBoundProvider::value` -/
def DeviceProfile.value (profile : DeviceProfile) : ExternalValueProvider :=
  fun field _ bitLen =>
    let answer (iid : Option { bytes : List UInt8 // bytes.length = 8 }) :
        Except SchcError (List UInt8) :=
      match iid with
      | none => .error (.invalidResidue "external IID profile value is missing")
      | some bytes =>
          if bitLen ≠ 64 then
            .error (.invalidResidue
              s!"external IID profile requires 64 bits, requested {bitLen}")
          else .ok bytes.val
    match field with
    | .ipv6 (.known .ipv6DevIid) => answer profile.deviceIid
    | .ipv6 (.known .ipv6AppIid) => answer profile.applicationIid
    | _ => .error (.invalidResidue "unsupported external IID field")

def mapCoreError : SchcError → RuntimeError
  | .unsupportedRuleNature nature =>
      if nature = "fragmentation" then .unsupportedFragmentation (.unsupportedRuleNature nature)
      else .core (.unsupportedRuleNature nature)
  | error => .core error

/-- `.map_err(map_core_error)` -/
def fromCore {α : Type} : Result α → RuntimeResult α
  | .ok a => .ok a
  | .error (.fail error) => .error (.fail (mapCoreError error))
  | .error (.panic site) => .error (.panic site)

/-- `.map_err(RuntimeError::from)` for a frame. -/
def fromFrame : Except FrameError SchcFrame → RuntimeResult SchcFrame
  | .ok frame => .ok frame
  | .error error => .error (.fail (.invalidFrame error))

def encodeDirection (endpoint : Endpoint) (flow : PacketFlow) : RuntimeResult Direction :=
  match endpoint, flow with
  | .device, .uplink => .ok .up
  | .core, .downlink => .ok .down
  | _, _ => .error (.fail (.invalidPath .encode endpoint flow))

def decodePosition (endpoint : Endpoint) (flow : PacketFlow) : RuntimeResult Position :=
  match endpoint, flow with
  | .core, .uplink => .ok .core
  | .device, .downlink => .ok .device
  | _, _ => .error (.fail (.invalidPath .decode endpoint flow))

structure EncodedResult where
  frame : SchcFrame
  ruleId : RuleId

structure DecodedResult where
  packet : List UInt8
  ruleId : RuleId
  deriving DecidableEq

structure Runtime where
  deviceId : DeviceId
  compressor : Compressor
  decompressor : Decompressor

namespace Runtime

def new (deviceId : DeviceId) (ruleContext : RuleContext) (profile : DeviceProfile) :
    RuntimeResult Runtime := do
  let compressor ← fromCore (Compressor.new ruleContext)
  .ok ⟨deviceId, compressor,
    Decompressor.withExternalValueProvider ruleContext profile.value⟩

def ensureDevice (runtime : Runtime) (device : DeviceId) : RuntimeResult Unit :=
  if device = runtime.deviceId then .ok () else .error (.fail .wrongDevice)

def encodeDetailed (runtime : Runtime) (device : DeviceId) (endpoint : Endpoint)
    (flow : PacketFlow) (packet : List UInt8) : RuntimeResult EncodedResult := do
  runtime.ensureDevice device
  let direction ← encodeDirection endpoint flow
  let compressed ← fromCore (runtime.compressor.compress direction packet)
  let frame ← fromFrame (SchcFrame.new compressed.bytes compressed.bitLen)
  .ok ⟨frame, compressed.ruleId⟩

def decodeDetailed (runtime : Runtime) (device : DeviceId) (endpoint : Endpoint)
    (flow : PacketFlow) (frame : SchcFrame) : RuntimeResult DecodedResult := do
  runtime.ensureDevice device
  let position ← decodePosition endpoint flow
  let decoded ← fromCore
    (runtime.decompressor.decompressWithBitLenDetailed position frame.bytes frame.bitLen)
  .ok ⟨decoded.packet, decoded.ruleId⟩

def decodePaddedDetailed (runtime : Runtime) (device : DeviceId) (endpoint : Endpoint)
    (flow : PacketFlow) (bytes : List UInt8) : RuntimeResult DecodedResult := do
  runtime.ensureDevice device
  let position ← decodePosition endpoint flow
  let decoded ← fromCore (runtime.decompressor.decompressDetailed position bytes)
  .ok ⟨decoded.packet, decoded.ruleId⟩

end Runtime

inductive NodeRole where
  | core | device
  deriving DecidableEq, Repr

namespace NodeRole

def outbound : NodeRole → Endpoint × PacketFlow
  | .core => (.core, .downlink)
  | .device => (.device, .uplink)

def inbound : NodeRole → Endpoint × PacketFlow
  | .core => (.core, .uplink)
  | .device => (.device, .downlink)

end NodeRole

/-- A node of a point-to-point link: one runtime in a fixed role. -/
structure LinkNode where
  runtime : Runtime
  role : NodeRole

namespace LinkNode

def outbound (node : LinkNode) (packet : List UInt8) : RuntimeResult EncodedResult :=
  node.runtime.encodeDetailed node.runtime.deviceId node.role.outbound.1 node.role.outbound.2 packet

def inbound (node : LinkNode) (bytes : List UInt8) : RuntimeResult DecodedResult :=
  node.runtime.decodePaddedDetailed node.runtime.deviceId node.role.inbound.1 node.role.inbound.2
    bytes

end LinkNode

/-- The direction a node compresses in and the position it decompresses at. -/
def NodeRole.direction : NodeRole → Direction
  | .core => .down
  | .device => .up

def NodeRole.position : NodeRole → Position
  | .core => .core
  | .device => .device

/-- A node's own calls pass the device and the path check. -/
theorem LinkNode.outbound_eq (node : LinkNode) (packet : List UInt8) :
    node.outbound packet = (do
      let compressed ← fromCore (node.runtime.compressor.compress node.role.direction packet)
      let frame ← fromFrame (SchcFrame.new compressed.bytes compressed.bitLen)
      .ok ⟨frame, compressed.ruleId⟩) := by
  rw [outbound, Runtime.encodeDetailed, Runtime.ensureDevice, if_pos rfl, ok_bind]
  cases node.role <;> rfl

theorem LinkNode.inbound_eq (node : LinkNode) (bytes : List UInt8) :
    node.inbound bytes = (do
      let decoded ← fromCore
        (node.runtime.decompressor.decompressDetailed node.role.position bytes)
      .ok ⟨decoded.packet, decoded.ruleId⟩) := by
  rw [inbound, Runtime.decodePaddedDetailed, Runtime.ensureDevice, if_pos rfl, ok_bind]
  cases node.role <;> rfl

/-- At a node's own position a frame is decoded at its bit length. -/
theorem LinkNode.decodeDetailed_eq (node : LinkNode) (frame : SchcFrame) :
    node.runtime.decodeDetailed node.runtime.deviceId node.role.inbound.1 node.role.inbound.2
        frame = (do
      let decoded ← fromCore (node.runtime.decompressor.decompressWithBitLenDetailed
        node.role.position frame.bytes frame.bitLen)
      .ok ⟨decoded.packet, decoded.ruleId⟩) := by
  rw [Runtime.decodeDetailed, Runtime.ensureDevice, if_pos rfl, ok_bind]
  cases node.role <;> rfl

/-- A compressed datagram as a canonical frame: the rule ID comes first, and the bytes end
    where the bits do. -/
structure CompressedDatagram.Framed (datagram : CompressedDatagram) : Prop where
  identified : 1 ≤ datagram.ruleId.bitLen
  longer : datagram.ruleId.bitLen ≤ datagram.bitLen
  size : datagram.bytes.length = (datagram.bitLen + 7) / 8
  clear : (ofBytes datagram.bytes).drop datagram.bitLen =
    List.replicate (8 * datagram.bytes.length - datagram.bitLen) false
  named : toNat ((ofBytes datagram.bytes).take datagram.ruleId.bitLen) = datagram.ruleId.value

theorem CompressedDatagram.Framed.canonical {datagram : CompressedDatagram}
    (framed : datagram.Framed) : Canonical datagram.bytes datagram.bitLen :=
  ⟨Nat.lt_of_lt_of_le framed.identified framed.longer, framed.size, framed.clear⟩

/-- What a bit writer that starts with a rule ID ends in. -/
theorem BitWriter.framed {w : BitWriter} {id : RuleId} (fits : id.Fits) {body : List Bool}
    (wrote : w.bits = id.bits ++ body) : (w.datagram id).Framed := by
  have length : w.bitLen = id.bitLen + body.length := by
    rw [← w.length_bits, wrote, List.length_append, RuleId.bits, length_ofNat]
  constructor
  · exact fits.positive
  · change id.bitLen ≤ w.bitLen
    omega
  · change w.toVec.length = _
    rw [w.toVec_eq]
    exact w.size
  · change (ofBytes w.toVec).drop w.bitLen = List.replicate (8 * w.toVec.length - w.bitLen) false
    rw [w.toVec_eq]
    exact w.clear
  · change toNat ((ofBytes w.toVec).take id.bitLen) = id.value
    rw [w.toVec_eq, w.ofBytes_bytes, wrote, List.append_assoc, RuleId.bits,
      List.take_left' (length_ofNat _ _)]
    exact toNat_ofNat fits.value

/-- Along every route a datagram is what a bit writer holds after the rule ID. -/
theorem Compressor.compress_framed {c : Compressor} (fit : ∀ rule ∈ c.context.rules.rules, rule.id.Fits)
    {height : Nat} (built : Built c.tree.nodes height 0 0 (orderedRules c.context.rules.rules))
    {direction : Direction} {packet : List UInt8} {datagram : CompressedDatagram}
    (done : c.compress direction packet = .ok datagram) : datagram.Framed := by
  rcases compress_ok fit built done with ⟨k, rule, state, -, own⟩ | ⟨k, rule, placed, -, -, -, made⟩
  · have fits := fit rule (List.mem_of_getElem? own.stands.placed)
    obtain ⟨w, same, body, wrote, -⟩ := leafCandidate_carries fits own.made
    cases same
    exact BitWriter.framed fits wrote
  · have fits := fit rule (List.mem_of_getElem? placed)
    obtain ⟨w, written, wrote⟩ := noCompressionCandidate_ok fits k packet
    rw [written] at made
    cases made
    exact BitWriter.framed fits wrote

theorem mapCoreError_ne_invalidFrame (error : SchcError) (frame : FrameError) :
    mapCoreError error ≠ .invalidFrame frame := by
  unfold mapCoreError
  split
  · split <;> simp
  · simp

theorem fromCore_ne_invalidFrame {α : Type} (x : Result α) (frame : FrameError) :
    fromCore x ≠ .error (.fail (.invalidFrame frame)) := by
  intro same
  unfold fromCore at same
  split at same
  · cases same
  · rename_i error
    exact mapCoreError_ne_invalidFrame error frame (by injection same with same; injection same)
  · cases same

/-- Whatever the core returns becomes a frame, so an invalid frame is never reported. -/
theorem Runtime.encodeDetailed_ne_invalidFrame {runtime : Runtime}
    (framed : ∀ {direction packet datagram},
      runtime.compressor.compress direction packet = .ok datagram → datagram.Framed)
    (device : DeviceId) (endpoint : Endpoint) (flow : PacketFlow) (packet : List UInt8)
    (frame : FrameError) :
    runtime.encodeDetailed device endpoint flow packet ≠ .error (.fail (.invalidFrame frame)) := by
  unfold encodeDetailed ensureDevice
  by_cases known : device = runtime.deviceId
  · rw [if_pos known, ok_bind]
    cases path : encodeDirection endpoint flow with
    | error halt =>
      rw [error_bind]
      unfold encodeDirection at path
      split at path <;> cases path
      simp
    | ok direction =>
      rw [ok_bind]
      cases compressed : runtime.compressor.compress direction packet with
      | error halt =>
        intro same
        have failed := fromCore_ne_invalidFrame
          (Except.error halt : Result CompressedDatagram) frame
        cases halt with
        | fail error =>
          apply failed
          rw [fromCore, error_bind] at same
          rw [fromCore]
          injection same with same
          rw [same]
        | panic site => cases same
      | ok datagram =>
        obtain ⟨made, accepted⟩ :=
          (SchcFrame.new_ok_iff datagram.bytes datagram.bitLen).mpr (framed compressed).canonical
        rw [fromCore, ok_bind, accepted, fromFrame, ok_bind]
        simp
  · rw [if_neg known, error_bind]
    simp

/-- Whatever a compressor over a loaded context returns is a canonical frame: the constructor
    of frames accepts it, and no runtime reports an invalid one. -/
theorem compressed_frames_canonical {ctx : RuleContext} (loaded : ctx.Loaded) :
    (∀ c, Compressor.new ctx = .ok c → ∀ direction packet datagram,
      c.compress direction packet = .ok datagram →
        datagram.Framed ∧ ∃ frame, SchcFrame.new datagram.bytes datagram.bitLen = .ok frame) ∧
    (∀ deviceId profile runtime, Runtime.new deviceId ctx profile = .ok runtime →
      ∀ device endpoint flow packet frame,
        runtime.encodeDetailed device endpoint flow packet ≠
          .error (.fail (.invalidFrame frame))) := by
  have framed : ∀ {c}, Compressor.new ctx = .ok c → ∀ {direction packet datagram},
      c.compress direction packet = .ok datagram → datagram.Framed := by
    intro c made direction packet datagram done
    obtain ⟨context, built⟩ := Compressor.new_built made
    have fit : ∀ rule ∈ c.context.rules.rules, rule.id.Fits := by
      intro rule member
      rw [context] at member
      exact (loaded.valid.rules rule member).id
    rw [← context] at built
    exact Compressor.compress_framed fit built done
  constructor
  · intro c made direction packet datagram done
    have whole := framed made done
    exact ⟨whole, (SchcFrame.new_ok_iff _ _).mpr whole.canonical⟩
  · intro deviceId profile runtime created device endpoint flow packet frame
    obtain ⟨c, made⟩ := Compressor.new_total ctx
    rw [Runtime.new, made, fromCore, ok_bind] at created
    cases created
    exact Runtime.encodeDetailed_ne_invalidFrame (framed made) device endpoint flow packet frame

theorem compressed_frames_canonical_at_raw_bytes :
    ∃ c, Compressor.new wrapperContext = .ok c ∧
      c.compress .up [1, 2, 3] = .ok ⟨[0x30, 0x10, 0x20, 0x30], 28, ⟨3, 4⟩⟩ ∧
      (∃ frame, SchcFrame.new [0x30, 0x10, 0x20, 0x30] 28 = .ok frame) ∧
      CompressedDatagram.Framed ⟨[0x30, 0x10, 0x20, 0x30], 28, ⟨3, 4⟩⟩ := by
  have made : Compressor.new wrapperContext =
      .ok ⟨wrapperContext, ⟨[⟨some ⟨3, 4⟩, some 0, []⟩]⟩⟩ := rfl
  have done : Compressor.compress ⟨wrapperContext, ⟨[⟨some ⟨3, 4⟩, some 0, []⟩]⟩⟩ .up [1, 2, 3] =
      .ok ⟨[0x30, 0x10, 0x20, 0x30], 28, ⟨3, 4⟩⟩ := rfl
  obtain ⟨framed, accepted⟩ :=
    (compressed_frames_canonical wrapperContext_loaded).1 _ made .up [1, 2, 3] _ done
  exact ⟨_, made, done, accepted, framed⟩

end SchcCore
