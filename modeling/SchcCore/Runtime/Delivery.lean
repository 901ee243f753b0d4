import SchcCore.Roundtrip.Exact
import SchcCore.Runtime.Progress

/- What comes out of the link, over every run: packets that the other end accepted and that its
   nodes make no worse than their rules do. -/
namespace SchcCore
open Outcome

section
variable {Addr : Type} [DecidableEq Addr]

/- Runs of the link. -/

/-- A run of the link is a run of the pipe towards each end. -/
theorem Link.Reachable.pipe {link : Link Addr} {state : LinkState Addr}
    (reached : link.Reachable state) (role : NodeRole) :
    Pipe.Run (link.carry role) Pipe.empty (Link.pipe state role) := by
  induction reached with
  | refl => exact Relation.ReflTransGen.refl
  | tail before step ih =>
    exact Relation.ReflTransGen.trans ih (step.pipe (Link.Reachable.sound before).1 role)

/- Two processes that wrap every packet, and end at two successes. -/

def wrapperLink : Link Nat where
  ends
    | .core => .udp wrapperUdp
    | .device => .tun (wrapperTun .device 2 1)
  operationLimit := fun _ => some 2
  roles := fun role => by cases role <;> rfl
  wired := fun role => by cases role <;> rfl
  apart := by decide

theorem wrapperLink_crosses : wrapperLink.Crosses .device hopHeader hopHeader where
  short := by decide +kernel
  fits := by
    intro encoded sent
    have length : ((wrapperLink.ends .core).node.outbound hopHeader.bytes).map
        (fun encoded => encoded.frame.bytes.length) = .ok 41 := by decide +kernel
    rw [show (wrapperLink.ends .core).node.outbound hopHeader.bytes = _ from sent] at length
    have short : encoded.frame.bytes.length = 41 := Except.ok.inj length
    rw [short]
    decide
  arrives := by decide +kernel

theorem wrapperLink_delivered :
    ∃ state, wrapperLink.Reachable state ∧ state.accepted .core = [hopHeader.bytes] ∧
      state.delivered .device = [hopHeader.bytes] := by
  have begins : wrapperLink.Reachable wrapperLink.initial := .refl
  obtain ⟨state, run, accepted, delivered, -⟩ :=
    begins.crosses rfl rfl wrapperLink_crosses
  refine ⟨state, run, ?_, ?_⟩
  · rw [accepted]
    rfl
  · rw [delivered]
    rfl

/- What is delivered. -/

/-- Whatever the network does and however the two processes interleave, only complete IPv6 packets
    come out at an end, and each is what decoding makes of the frame of a packet that the other end
    accepted before. -/
theorem link_delivers_accepted (link : Link Addr) {state : LinkState Addr}
    (reached : link.Reachable state) (role : NodeRole) (packet : List UInt8)
    (delivered : packet ∈ state.delivered role) :
    (∃ q, Ipv6Packet.parse packet = .ok q) ∧
      ∃ (p : Ipv6Packet) (ruleId : RuleId), p.bytes ∈ state.accepted role.peer ∧
        transfer (link.ends role.peer).node (link.ends role).node p.bytes = .ok ⟨packet, ruleId⟩ := by
  have complete := (Link.Reachable.sound reached).2
  obtain ⟨q, rfl⟩ := (complete role).2 packet delivered
  refine ⟨⟨q, Ipv6Packet.parse_bytes q⟩, ?_⟩
  obtain ⟨source, member, crosses⟩ := (Pipe.run_empty_iff _).mp (reached.pipe role) _ delivered
  obtain ⟨p, rfl⟩ := (complete role.peer).1 source member
  obtain ⟨ruleId, crossed⟩ := Link.carry_some crosses
  exact ⟨p, ruleId, member, crossed⟩

theorem link_delivers_accepted_at_hop : ∃ state, wrapperLink.Reachable state ∧
    state.delivered .device = [hopHeader.bytes] ∧
      (∃ q, Ipv6Packet.parse hopHeader.bytes = .ok q) ∧
      ∃ (p : Ipv6Packet) (ruleId : RuleId), p.bytes ∈ state.accepted .core ∧
        transfer (wrapperNode .core) (wrapperNode .device) p.bytes =
          .ok ⟨hopHeader.bytes, ruleId⟩ := by
  obtain ⟨state, reached, accepted, delivered⟩ := wrapperLink_delivered
  refine ⟨state, reached, delivered, ?_⟩
  exact link_delivers_accepted wrapperLink reached .device hopHeader.bytes (by simp [delivered])

/- Nodes over one rule context. -/

section
variable {link : Link Addr} {ctx : RuleContext} {profiles : NodeRole → DeviceProfile}

/-- Both nodes are built over one loaded context, and each end decodes what the other encodes. -/
structure Link.Over (link : Link Addr) (ctx : RuleContext) (profiles : NodeRole → DeviceProfile) :
    Prop where
  loaded : ctx.Loaded
  built : ∀ role, (link.ends role).node.Over ctx (profiles role)
  restores : ∀ role, ctx.Restores role.peer.direction (some (profiles role).value)

theorem wrapperLink_over : wrapperLink.Over wrapperContext fun _ => wrapperProfile where
  loaded := wrapperContext_loaded
  built := fun role => by cases role <;> rfl
  restores := by
    intro role rule member
    obtain rfl := List.mem_singleton.mp member
    refine ⟨?_, fun coded => absurd (.inl rfl) coded⟩
    intro k entry placed
    cases placed

omit [DecidableEq Addr] in
theorem Link.Over.linked (over' : link.Over ctx profiles) (role : NodeRole) :
    Linked ctx (profiles role) (link.ends role.peer).node (link.ends role).node := by
  refine ⟨⟨_, over'.built role.peer⟩, over'.built role, ?_⟩
  rw [link.roles, link.roles]
  cases role <;> rfl

omit [DecidableEq Addr] in
/-- What crossing the link towards an end comes to. -/
theorem Link.Over.verdict (over' : link.Over ctx profiles) (role : NodeRole) {p : Ipv6Packet}
    {encoded : EncodedResult} (sent : (link.ends role.peer).node.outbound p.bytes = .ok encoded) :
    ∃ rule ∈ ctx.rules.rules, rule.id = encoded.ruleId ∧ ∃ last,
      runEntries p.bytes role.peer.direction rule.fields .initial = .ok (some last) ∧
      Safe (transfer (link.ends role.peer).node (link.ends role).node p.bytes) ∧
      (∀ decoded, transfer (link.ends role.peer).node (link.ends role).node p.bytes = .ok decoded →
        decoded.ruleId = rule.id) ∧
      (transfer (link.ends role.peer).node (link.ends role).node p.bytes = .ok ⟨p.bytes, rule.id⟩ ↔
        rule.Returns role.peer.direction p last.fields) := by
  have verdict := (over'.linked role).verdict over'.loaded
    (by rw [link.roles]; exact over'.restores role) sent
  rwa [link.roles] at verdict

/-- A packet is handed over as it was accepted exactly when the rule it was sent under returns it. -/
theorem link_delivers_iff (over' : link.Over ctx profiles) {state : LinkState Addr}
    (reached : link.Reachable state) (role : NodeRole) (packet : List UInt8)
    (delivered : packet ∈ state.delivered role) :
    ∃ (p : Ipv6Packet) (encoded : EncodedResult), p.bytes ∈ state.accepted role.peer ∧
      (link.ends role.peer).node.outbound p.bytes = .ok encoded ∧
      ∃ rule ∈ ctx.rules.rules, rule.id = encoded.ruleId ∧
        transfer (link.ends role.peer).node (link.ends role).node p.bytes =
          .ok ⟨packet, rule.id⟩ ∧ ∃ last,
        runEntries p.bytes role.peer.direction rule.fields .initial = .ok (some last) ∧
        (packet = p.bytes ↔ rule.Returns role.peer.direction p last.fields) := by
  obtain ⟨sourced, complete⟩ := Link.Reachable.sound reached
  obtain ⟨source, member, crosses⟩ :=
    (Pipe.run_empty_iff _).mp (Link.Reachable.pipe reached role) packet delivered
  obtain ⟨p, rfl⟩ := (complete role.peer).1 source member
  obtain ⟨ruleId, crossed⟩ := Link.carry_some crosses
  have split := crossed
  rw [transfer, bind_eq_ok] at split
  obtain ⟨encoded, sent, -⟩ := split
  obtain ⟨rule, listed, selected, last, ran, -, named, returns⟩ := over'.verdict role sent
  have id : ruleId = rule.id := named _ crossed
  subst id
  refine ⟨p, encoded, member, sent, rule, listed, selected, crossed, last, ran, ?_⟩
  rw [← returns, crossed]
  simp

theorem link_delivers_iff_at_hop : ∃ state, wrapperLink.Reachable state ∧
    state.delivered .device = [hopHeader.bytes] ∧
      ∃ (p : Ipv6Packet) (encoded : EncodedResult), p.bytes ∈ state.accepted .core ∧
        (wrapperNode .core).outbound p.bytes = .ok encoded ∧
        ∃ rule ∈ wrapperContext.rules.rules, rule.id = encoded.ruleId ∧
          transfer (wrapperNode .core) (wrapperNode .device) p.bytes =
            .ok ⟨hopHeader.bytes, rule.id⟩ ∧ ∃ last,
          runEntries p.bytes .down rule.fields .initial = .ok (some last) ∧
          (hopHeader.bytes = p.bytes ↔ rule.Returns .down p last.fields) := by
  obtain ⟨state, reached, accepted, delivered⟩ := wrapperLink_delivered
  refine ⟨state, reached, delivered, ?_⟩
  exact link_delivers_iff wrapperLink_over reached .device hopHeader.bytes (by simp [delivered])

/-- No run makes either process panic. -/
theorem link_never_panics (over' : link.Over ctx profiles) {state : LinkState Addr}
    (reached : link.Reachable state) (role : NodeRole) (site : PanicSite) :
    state.loops role ≠ .failed (.panic site) := by
  induction reached with
  | refl =>
    simp only [Link.initial, Process.start]
    split <;> simp
  | tail before step ih =>
    obtain ⟨own, operation, successfulOperations, answers, running, possible⟩ := step
    rename_i state
    rw [link.after_loops]
    by_cases here : role = own
    · subst here
      rw [Function.update_self, running]
      intro stopped
      have panicked : ((link.ends role).perform operation answers).result =
          .error (.panic site) := Process.step_panic stopped
      cases operation with
      | outbound => exact Process.outbound_safe over'.loaded (over'.built role) answers site panicked
      | inbound =>
        obtain ⟨compressed, arrived, received⟩ := Process.inbound_panic_iff.mp panicked
        obtain ⟨p, encoded, member, sent, framed⟩ :=
          (Link.Reachable.sound before).1.arrives (possible rfl) arrived
        obtain ⟨-, -, -, -, -, safe, -⟩ := over'.verdict role sent
        apply safe site
        rw [transfer, sent, ok_bind, ← framed, received]
    · rw [Function.update_of_ne here]
      exact ih

theorem link_never_panics_at_hop : ∃ state, wrapperLink.Reachable state ∧
    state.delivered .device = [hopHeader.bytes] ∧
      ∀ role site, state.loops role ≠ .failed (.panic site) := by
  obtain ⟨state, reached, -, delivered⟩ := wrapperLink_delivered
  exact ⟨state, reached, delivered, link_never_panics wrapperLink_over reached⟩

end

/-- While both processes run, the run can go on to deliver any sequence of packets that cross one by
    one, complete and in its order, as long as it leaves both within their operation limits. -/
theorem link_can_deliver (link : Link Addr) {state : LinkState Addr} (reached : link.Reachable state)
    (role : NodeRole) {a b : TransportOperation} {sends receives : Nat}
    (sending : state.loops role.peer = .running a sends)
    (receiving : state.loops role = .running b receives) (crossings : List (Ipv6Packet × Ipv6Packet))
    (cross : ∀ crossing ∈ crossings, link.Crosses role crossing.1 crossing.2)
    (allowed : ∀ limit, link.operationLimit role.peer = some limit →
      sends + crossings.length ≤ limit)
    (allowed' : ∀ limit, link.operationLimit role = some limit →
      receives + crossings.length ≤ limit) :
    ∃ next, Relation.ReflTransGen link.Step state next ∧
      next.accepted = Function.update state.accepted role.peer
        (state.accepted role.peer ++ crossings.map fun crossing => crossing.1.bytes) ∧
      next.delivered = Function.update state.delivered role
        (state.delivered role ++ crossings.map fun crossing => crossing.2.bytes) := by
  induction crossings generalizing state a b sends receives with
  | nil =>
    refine ⟨state, .refl, ?_, ?_⟩
    · simp
    · simp
  | cons crossing rest ih =>
    obtain ⟨next, run, accepted, delivered, sent, received⟩ :=
      Link.Reachable.crosses reached sending receiving (cross crossing List.mem_cons_self)
    cases rest with
    | nil => exact ⟨next, run, accepted, delivered⟩
    | cons second rest =>
      rw [LoopState.counted_running fun limit set =>
        Nat.lt_of_lt_of_le (by simp) (allowed limit set)] at sent
      rw [LoopState.counted_running fun limit set =>
        Nat.lt_of_lt_of_le (by simp) (allowed' limit set)] at received
      obtain ⟨last, later, accepted', delivered'⟩ := ih (reached.trans run) sent received
        (fun other member => cross other (List.mem_cons_of_mem _ member))
        (fun limit set => by have := allowed limit set; simp at this ⊢; omega)
        (fun limit set => by have := allowed' limit set; simp at this ⊢; omega)
      refine ⟨last, run.trans later, ?_, ?_⟩
      · rw [accepted', accepted]
        simp
      · rw [delivered', delivered]
        simp

theorem link_can_deliver_hop_twice : ∃ state,
    Relation.ReflTransGen wrapperLink.Step wrapperLink.initial state ∧
    state.accepted .core = [hopHeader.bytes, hopHeader.bytes] ∧
      state.delivered .device = [hopHeader.bytes, hopHeader.bytes] := by
  obtain ⟨state, run, accepted, delivered⟩ := link_can_deliver wrapperLink .refl .device rfl rfl
    [(hopHeader, hopHeader), (hopHeader, hopHeader)]
    (by simp [wrapperLink_crosses])
    (fun limit set => by cases set; decide) (fun limit set => by cases set; decide)
  refine ⟨state, run, ?_, ?_⟩
  · rw [accepted]
    rfl
  · rw [delivered]
    rfl

end

end SchcCore
