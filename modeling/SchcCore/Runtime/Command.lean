import SchcCore.Runtime.Delivery

/- The command up to its loop: the packet boundary that its options choose, the rules and the profile
   that its node is built over, and the sockets that it binds. The parsed options and what the
   operating system answers are arguments. -/
namespace SchcCore
open Outcome

/- Options. -/

/-- `Cli` without the paths of the two files: what the files hold is an answer. -/
structure Cli (Addr : Type) where
  role : NodeRole
  deviceId : String
  linkBind : Addr
  linkPeer : Addr
  packetIngressBind : Option Addr
  packetOutputPeer : Option Addr
  tunName : Option String
  tunMtu : Option UInt16
  deviceIid : Option { bytes : List UInt8 // bytes.length = 8 }
  applicationIid : Option { bytes : List UInt8 // bytes.length = 8 }
  operationLimit : Option Nat

inductive PacketMode (Addr : Type) where
  | udp (packetIngressBind packetOutputPeer : Addr)
  | tun (name : String) (mtu : UInt16)

/-- `Box<dyn Error>` before the loop. -/
inductive StartError (Addr : Type) where
  | options (reason : String)
  | deviceId (error : DeviceIdError)
  | io (error : IoError)
  | core (error : SchcError)
  | runtime (error : RuntimeError)
  | udp (error : UdpError Addr)
  | tun (error : LinuxTunError)
  | packet (error : PacketTransportError Addr)

/-- What the operating system answers to creating and setting up a TUN interface. -/
structure TunAnswers where
  interfaceName : Except IoError Unit
  create : Except IoError Unit
  setMtu : Except IoError Unit
  setState : Except IoError Unit
  setNonblocking : Except IoError Unit
  name : Except IoError Unit

/-- What the files hold and what the operating system answers before the loop. -/
structure StartAnswers (Addr : Type) where
  sid : Except SchcError (List SidItem)
  sor : Except IoError (Except SchcError CborValue)
  tun : TunAnswers
  link : Except IoError (UdpSocket Addr)
  ingress : Except IoError (UdpSocket Addr)
  linkTimeout : Except IoError Unit
  ingressTimeout : Except IoError Unit
  flush : Except IoError Unit

section
variable {Addr : Type}

def Cli.packetMode (cli : Cli Addr) : Except String (PacketMode Addr) :=
  match cli.tunName, cli.packetIngressBind, cli.packetOutputPeer with
  | some name, none, none => .ok (.tun name (cli.tunMtu.getD 1280))
  | none, some packetIngressBind, some packetOutputPeer =>
      if cli.tunMtu.isNone then .ok (.udp packetIngressBind packetOutputPeer)
      else .error "choose either --tun-name or both --packet-ingress-bind and --packet-output-peer"
  | _, _, _ =>
      .error "choose either --tun-name or both --packet-ingress-bind and --packet-output-peer"

/-- `DeviceProfile::new` -/
def Cli.profile (cli : Cli Addr) : DeviceProfile := ⟨cli.deviceIid, cli.applicationIid⟩

/-- The node that `run` builds from the files. -/
def Cli.node (cli : Cli Addr) (answers : StartAnswers Addr) :
    Outcome (StartError Addr) PanicSite LinkNode := do
  let deviceId ← fromIo .deviceId (DeviceId.new cli.deviceId)
  let items ← fromIo .core answers.sid
  let sor ← fromIo .io answers.sor
  let root ← fromIo .core sor
  let context ← mapFail .core (RuleContext.fromCbor root (.ofItems items))
  let runtime ← mapFail .runtime (Runtime.new deviceId context cli.profile)
  .ok ⟨runtime, cli.role⟩

/-- `LinuxTunDevice::create` -/
def LinuxTunDevice.create (config : LinuxTunConfig) (answers : TunAnswers) :
    Outcome LinuxTunError PanicSite Unit := do
  fromIo id config.validate
  fromIo .interfaceName answers.interfaceName
  fromIo (.operation "create interface") answers.create
  fromIo (.operation "set MTU") answers.setMtu
  fromIo (.operation "bring interface up") answers.setState
  fromIo (.operation "set nonblocking") answers.setNonblocking
  fromIo (.operation "query interface name") answers.name

variable [DecidableEq Addr]

/-- `run_udp_mode` before its loop. -/
def Cli.udpMode (cli : Cli Addr) (answers : StartAnswers Addr) (node : LinkNode)
    (packetIngressBind packetOutputPeer : Addr) :
    Outcome (StartError Addr) PanicSite (Process Addr) := do
  let transport ← mapFail .udp (UdpTransport.bind node
    ⟨cli.linkBind, cli.linkPeer, packetIngressBind, packetOutputPeer⟩ answers.link answers.ingress)
  fromIo (fun error => .udp (.io error)) answers.linkTimeout
  fromIo (fun error => .udp (.io error)) answers.ingressTimeout
  let _ ← fromIo (fun error => .udp (.io error)) transport.linkSocket.localAddr
  let _ ← fromIo (fun error => .udp (.io error)) transport.packetIngress.localAddr
  fromIo .io answers.flush
  .ok (.udp transport)

/-- `run_tun_mode` before its loop. -/
def Cli.tunMode (cli : Cli Addr) (answers : StartAnswers Addr) (node : LinkNode) (name : String)
    (mtu : UInt16) : Outcome (StartError Addr) PanicSite (Process Addr) := do
  mapFail .tun (LinuxTunDevice.create ⟨name, mtu⟩ answers.tun)
  let transport ← mapFail .packet
    (PacketTransport.bind node ⟨cli.linkBind, cli.linkPeer⟩ answers.link)
  fromIo (fun error => .packet (.io error)) answers.linkTimeout
  let _ ← fromIo (fun error => .packet (.io error)) transport.linkSocket.localAddr
  fromIo .io answers.flush
  .ok (.tun transport)

/-- `run` before the loop. -/
def Cli.start (cli : Cli Addr) (answers : StartAnswers Addr) :
    Outcome (StartError Addr) PanicSite (Process Addr) := do
  let mode ← fromIo .options cli.packetMode
  let node ← cli.node answers
  match mode with
  | .udp packetIngressBind packetOutputPeer =>
      cli.udpMode answers node packetIngressBind packetOutputPeer
  | .tun name mtu => cli.tunMode answers node name mtu

/-- `run` -/
def Cli.run (cli : Cli Addr) (answers : StartAnswers Addr) (rounds : List (RoundAnswers Addr)) :
    Outcome (StartError Addr) PanicSite (LoopState Addr) := do
  let process ← cli.start answers
  .ok (process.run cli.operationLimit rounds)

end

/- What the options choose. -/

section
variable {Addr : Type} {cli : Cli Addr} {answers : StartAnswers Addr}

theorem Cli.packetMode_udp_iff {packetIngressBind packetOutputPeer : Addr} :
    cli.packetMode = .ok (.udp packetIngressBind packetOutputPeer) ↔
      cli.tunName = none ∧ cli.tunMtu = none ∧ cli.packetIngressBind = some packetIngressBind ∧
        cli.packetOutputPeer = some packetOutputPeer := by
  unfold packetMode
  cases cli.tunName <;> cases cli.packetIngressBind <;> cases cli.packetOutputPeer <;>
    cases cli.tunMtu <;> simp

theorem Cli.packetMode_tun_iff {name : String} {mtu : UInt16} :
    cli.packetMode = .ok (.tun name mtu) ↔
      cli.tunName = some name ∧ cli.packetIngressBind = none ∧ cli.packetOutputPeer = none ∧
        mtu = cli.tunMtu.getD 1280 := by
  unfold packetMode
  cases cli.tunName <;> cases cli.packetIngressBind <;> cases cli.packetOutputPeer <;>
    cases cli.tunMtu <;> simp [eq_comm]

/- The node. -/

theorem DeviceId.new_eq_ok {value : String} {deviceId : DeviceId} :
    DeviceId.new value = .ok deviceId ↔ deviceId.text = value := by
  unfold DeviceId.new
  constructor
  · intro made
    split at made
    · cases made
    · cases made
      rfl
  · rintro rfl
    exact dif_neg deviceId.nonempty

theorem Runtime.new_deviceId {deviceId : DeviceId} {ctx : RuleContext} {profile : DeviceProfile}
    {runtime : Runtime} (made : Runtime.new deviceId ctx profile = .ok runtime) :
    runtime.deviceId = deviceId := by
  rw [Runtime.new, bind_eq_ok] at made
  obtain ⟨compressor, -, same⟩ := made
  cases same
  rfl

/-- The rule context that the two files hold. -/
def StartAnswers.Holds (answers : StartAnswers Addr) (ctx : RuleContext) : Prop :=
  ∃ items root, answers.sid = .ok items ∧ answers.sor = .ok (.ok root) ∧
    RuleContext.fromCbor root (.ofItems items) = .ok ctx

theorem StartAnswers.Holds.loaded {ctx : RuleContext} (holds : answers.Holds ctx) : ctx.Loaded := by
  obtain ⟨items, root, -, -, loaded⟩ := holds
  exact .cbor root _ loaded

/-- Files hold one context. -/
theorem StartAnswers.Holds.unique {ctx ctx' : RuleContext} (holds : answers.Holds ctx)
    (holds' : answers.Holds ctx') : ctx = ctx' := by
  obtain ⟨items, root, sid, sor, loaded⟩ := holds
  obtain ⟨items', root', sid', sor', loaded'⟩ := holds'
  cases sid.symm.trans sid'
  cases sor.symm.trans sor'
  exact Except.ok.inj (loaded.symm.trans loaded')

/-- A node is built under the name and in the role given, over the rules of the files and the
    identifiers of the options. -/
theorem Cli.node_eq_ok {node : LinkNode} :
    cli.node answers = .ok node ↔
      node.runtime.deviceId.text = cli.deviceId ∧ node.role = cli.role ∧
        ∃ ctx, answers.Holds ctx ∧ node.Over ctx cli.profile := by
  simp only [Cli.node, bind_eq_ok, fromIo_eq_ok, mapFail_eq_ok, DeviceId.new_eq_ok]
  constructor
  · rintro ⟨deviceId, named, items, sid, sor, read, root, parsed, ctx, loaded, runtime, made, same⟩
    cases same
    have kept := Runtime.new_deviceId made
    subst parsed
    refine ⟨kept ▸ named, rfl, ctx, ⟨items, root, sid, read, loaded⟩, ?_⟩
    rw [LinkNode.Over, kept, made]
  · rintro ⟨named, role, ctx, ⟨items, root, sid, read, loaded⟩, built⟩
    obtain ⟨runtime, own⟩ := node
    subst role
    exact ⟨_, named, items, sid, _, read, root, rfl, ctx, loaded, runtime, built, rfl⟩

/- The boundary. -/

/-- A TUN interface that comes up. -/
structure TunAnswers.Up (answers : TunAnswers) : Prop where
  interfaceName : answers.interfaceName = .ok ()
  create : answers.create = .ok ()
  setMtu : answers.setMtu = .ok ()
  setState : answers.setState = .ok ()
  setNonblocking : answers.setNonblocking = .ok ()
  name : answers.name = .ok ()

theorem LinuxTunDevice.create_eq_ok {config : LinuxTunConfig} {answers : TunAnswers} :
    LinuxTunDevice.create config answers = .ok () ↔
      config.name ≠ "" ∧ minIpv6Mtu ≤ config.mtu.toNat ∧ answers.Up := by
  simp only [LinuxTunDevice.create, bind_eq_ok, fromIo_eq_ok]
  constructor
  · rintro ⟨⟨⟩, valid, ⟨⟩, interfaceName, ⟨⟩, create, ⟨⟩, setMtu, ⟨⟩, setState, ⟨⟩, setNonblocking,
      name⟩
    obtain ⟨named, wide⟩ := LinuxTunConfig.validate_eq_ok.mp valid
    exact ⟨named, wide, interfaceName, create, setMtu, setState, setNonblocking, name⟩
  · rintro ⟨named, wide, up⟩
    exact ⟨(), LinuxTunConfig.validate_eq_ok.mpr ⟨named, wide⟩, (), up.interfaceName, (), up.create,
      (), up.setMtu, (), up.setState, (), up.setNonblocking, up.name⟩

/-- The sockets and the device that the options ask for, as the operating system opens them. -/
inductive Cli.Opens (cli : Cli Addr) (answers : StartAnswers Addr) : Process Addr → Prop where
  | udp (transport : UdpTransport Addr) (configured : Addr) :
      cli.tunName = none → cli.tunMtu = none → cli.packetIngressBind = some configured →
      cli.packetOutputPeer = some transport.config.packetOutputPeer →
      answers.link = .ok transport.linkSocket → answers.ingress = .ok transport.packetIngress →
      transport.packetIngress.localAddr = .ok transport.config.packetIngressBind →
      answers.linkTimeout = .ok () → answers.ingressTimeout = .ok () →
      Opens cli answers (.udp transport)
  | tun (transport : PacketTransport Addr) (name : String) :
      cli.tunName = some name → cli.packetIngressBind = none → cli.packetOutputPeer = none →
      name ≠ "" → minIpv6Mtu ≤ (cli.tunMtu.getD 1280).toNat → answers.tun.Up →
      answers.link = .ok transport.linkSocket → answers.linkTimeout = .ok () →
      Opens cli answers (.tun transport)

/-- What has to hold for a command to come to its loop as a process. -/
structure Cli.Starts (cli : Cli Addr) (answers : StartAnswers Addr) (process : Process Addr) :
    Prop where
  named : process.node.runtime.deviceId.text = cli.deviceId
  role : process.node.role = cli.role
  built : ∃ ctx, answers.Holds ctx ∧ process.node.Over ctx cli.profile
  opened : cli.Opens answers process
  peer : process.linkPeer = cli.linkPeer
  flushed : answers.flush = .ok ()

variable [DecidableEq Addr]

theorem Cli.udpMode_eq_ok {node : LinkNode} {packetIngressBind packetOutputPeer : Addr}
    {process : Process Addr} :
    cli.udpMode answers node packetIngressBind packetOutputPeer = .ok process ↔
      ∃ transport, process = .udp transport ∧
        (answers.link = .ok transport.linkSocket ∧ answers.ingress = .ok transport.packetIngress ∧
          transport.packetIngress.localAddr = .ok transport.config.packetIngressBind ∧
          transport.node = node ∧ transport.config.linkPeer = cli.linkPeer ∧
          transport.config.packetOutputPeer = packetOutputPeer) ∧
        answers.linkTimeout = .ok () ∧ answers.ingressTimeout = .ok () ∧ answers.flush = .ok () := by
  simp only [Cli.udpMode, bind_eq_ok, mapFail_eq_ok, fromIo_eq_ok, UdpTransport.bind_eq_ok_iff]
  constructor
  · rintro ⟨transport, bound, ⟨⟩, linkTimeout, ⟨⟩, ingressTimeout, _, -, _, -, ⟨⟩, flushed, same⟩
    cases same
    exact ⟨transport, rfl, bound, linkTimeout, ingressTimeout, flushed⟩
  · rintro ⟨transport, rfl, bound, linkTimeout, ingressTimeout, flushed⟩
    exact ⟨transport, bound, (), linkTimeout, (), ingressTimeout, _, transport.bound, _,
      bound.2.2.1, (), flushed, rfl⟩

theorem Cli.tunMode_eq_ok {node : LinkNode} {name : String} {mtu : UInt16}
    {process : Process Addr} :
    cli.tunMode answers node name mtu = .ok process ↔
      (name ≠ "" ∧ minIpv6Mtu ≤ mtu.toNat ∧ answers.tun.Up) ∧
        ∃ transport, process = .tun transport ∧
          (answers.link = .ok transport.linkSocket ∧ transport.node = node ∧
            transport.config.linkPeer = cli.linkPeer) ∧
          answers.linkTimeout = .ok () ∧ answers.flush = .ok () := by
  simp only [Cli.tunMode, bind_eq_ok, mapFail_eq_ok, fromIo_eq_ok, PacketTransport.bind_eq_ok_iff]
  constructor
  · rintro ⟨⟨⟩, created, transport, bound, ⟨⟩, linkTimeout, _, -, ⟨⟩, flushed, same⟩
    cases same
    exact ⟨LinuxTunDevice.create_eq_ok.mp created, transport, rfl, bound, linkTimeout, flushed⟩
  · rintro ⟨created, transport, rfl, bound, linkTimeout, flushed⟩
    exact ⟨(), LinuxTunDevice.create_eq_ok.mpr created, transport, bound, (), linkTimeout, _,
      transport.bound, (), flushed, rfl⟩

/-- A command comes to its loop exactly as a process over the rules of its files, with its boundary
    open, its peer where the options say and its node named and placed by them. -/
theorem command_starts_iff (cli : Cli Addr) (answers : StartAnswers Addr) (process : Process Addr) :
    cli.start answers = .ok process ↔ cli.Starts answers process := by
  simp only [Cli.start, bind_eq_ok, fromIo_eq_ok, Cli.node_eq_ok]
  constructor
  · rintro ⟨mode, chosen, node, ⟨named, role, built⟩, started⟩
    cases mode with
    | udp packetIngressBind packetOutputPeer =>
      obtain ⟨unnamed, plain, ingress, output⟩ := Cli.packetMode_udp_iff.mp chosen
      obtain ⟨transport, rfl, ⟨link, received, bound, rfl, peer, rfl⟩, linkTimeout, ingressTimeout,
        flushed⟩ := Cli.udpMode_eq_ok.mp started
      exact ⟨named, role, built, .udp transport _ unnamed plain ingress output link received bound
        linkTimeout ingressTimeout, peer, flushed⟩
    | tun name mtu =>
      obtain ⟨given, ingress, output, rfl⟩ := Cli.packetMode_tun_iff.mp chosen
      obtain ⟨⟨nonempty, wide, up⟩, transport, rfl, ⟨link, rfl, peer⟩, linkTimeout, flushed⟩ :=
        Cli.tunMode_eq_ok.mp started
      exact ⟨named, role, built, .tun transport name given ingress output nonempty wide up link
        linkTimeout, peer, flushed⟩
  · rintro ⟨named, role, built, opened, peer, flushed⟩
    cases opened with
    | udp transport configured unnamed plain ingress output link received bound linkTimeout
        ingressTimeout =>
      refine ⟨_, Cli.packetMode_udp_iff.mpr ⟨unnamed, plain, ingress, output⟩, transport.node,
        ⟨named, role, built⟩, ?_⟩
      exact Cli.udpMode_eq_ok.mpr ⟨transport, rfl, ⟨link, received, bound, rfl, peer, rfl⟩,
        linkTimeout, ingressTimeout, flushed⟩
    | tun transport name given ingress output nonempty wide up link linkTimeout =>
      refine ⟨_, Cli.packetMode_tun_iff.mpr ⟨given, ingress, output, rfl⟩, transport.node,
        ⟨named, role, built⟩, ?_⟩
      exact Cli.tunMode_eq_ok.mpr ⟨⟨nonempty, wide, up⟩, transport, rfl, ⟨link, rfl, peer⟩,
        linkTimeout, flushed⟩

/-- A command ends as its loop does, once it is there. -/
theorem command_runs_iff (cli : Cli Addr) (answers : StartAnswers Addr)
    (rounds : List (RoundAnswers Addr)) (state : LoopState Addr) :
    cli.run answers rounds = .ok state ↔
      ∃ process, cli.Starts answers process ∧ process.run cli.operationLimit rounds = state := by
  simp only [Cli.run, bind_eq_ok, Except.ok.injEq, command_starts_iff]

omit [DecidableEq Addr] in
/-- Two commands over the same files are the ends of a link over one context, if its rules restore
    what they send. -/
theorem Link.over_of_started {link : Link Addr} {clis : NodeRole → Cli Addr}
    {answers : NodeRole → StartAnswers Addr}
    (started : ∀ role, (clis role).Starts (answers role) (link.ends role)) {ctx : RuleContext}
    (holds : ∀ role, (answers role).Holds ctx)
    (restores : ∀ role, ctx.Restores role.peer.direction (some (clis role).profile.value)) :
    link.Over ctx fun role => (clis role).profile where
  loaded := (holds .core).loaded
  built := by
    intro role
    obtain ⟨own, held, built⟩ := (started role).built
    rwa [held.unique (holds role)] at built
  restores := restores

end
end SchcCore
