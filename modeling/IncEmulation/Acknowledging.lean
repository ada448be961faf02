import IncEmulation.Agreement

/-!
# Which acknowledgements find a rule

An ACK is looked up under the operation in force and the addresses of the host
that received the data.  AllReduce and Reduce have a rule for every host, but
Broadcast has one for its sender only.
-/

namespace IncEmulation

open Unique Machine

/-- An ACK or NAK of the peer of `conn`. -/
structure Packet.AckOf (packet : Packet) (conn : ConnectionConfig) : Prop where
  srcIp : packet.srcIp = inetAddr conn.peerIp
  dstIp : packet.dstIp = inetAddr conn.myIp
  opcode : packet.opcode = rdmaOpcodeAck

namespace SwitchContext

variable {ctx : SwitchContext} {operation : Collective} {conn : Nat}
  {packet ack : Packet}

/-- The operation in force; the parameter of AllReduce does not matter. -/
def Performs (ctx : SwitchContext) (operation : Collective) : Prop :=
  ctx.operationType = operation.metadata.1 ∧
    (operation = .allreduce ∨ ctx.rootRank = operation.metadata.2)

/-- An upstream rule is found, `handle_upstream_ack` runs and an ACK moves
`latest_ack`. -/
structure Registers (ctx : SwitchContext) (conn : Nat) (ack : Packet) :
    Prop where
  found : ∃ rule, lookupRule ctx.routingTable ack.srcIp ack.dstIp
    (ctx.lookupKey ack).1 (ctx.lookupKey ack).2 = some rule ∧
      rule.direction = .up
  handled : packetHandler ctx conn ack =
    (handleUpstreamAck ctx conn ack.psn ack.isNak, [])
  latestAck : ack.isNak = false →
    (packetHandler ctx conn ack).1.latestAck conn =
      max (ctx.latestAck conn) ack.psn

theorem latestAck_handleUpstreamAck (psn : Nat) :
    (handleUpstreamAck ctx conn psn false).latestAck conn =
      max (ctx.latestAck conn) psn := by
  unfold handleUpstreamAck
  rw [if_neg Bool.false_ne_true]
  split_ifs with later
  · rw [Nat.max_eq_right (Nat.le_of_lt later)]
    exact Function.update_self ..
  · rw [Nat.max_eq_left (Nat.le_of_not_lt later)]

theorem lookupKey_ack (isAck : ack.opcode = rdmaOpcodeAck) :
    ctx.lookupKey ack = (ctx.operationType, ctx.rootRank) := by
  have noImmediate : ack.hasImmData = false := by
    unfold Packet.hasImmData
    rw [isAck]
    decide
  simp [lookupKey, noImmediate]

/-- An ACK with an upstream rule is registered. -/
theorem registers_of_found (isAck : ack.opcode = rdmaOpcodeAck) {rule : Rule}
    (found : lookupRule ctx.routingTable ack.srcIp ack.dstIp
      (ctx.lookupKey ack).1 (ctx.lookupKey ack).2 = some rule)
    (up : rule.direction = .up) : ctx.Registers conn ack := by
  have noImmediate : ack.hasImmData = false := by
    unfold Packet.hasImmData
    rw [isAck]
    decide
  have notControl : ack.isControlMessage = false := by
    unfold Packet.isControlMessage
    rw [isAck]
    exact decide_eq_false fun control => absurd control.1 (by decide)
  have notSend : ack.isSend = false := by
    unfold Packet.isSend
    rw [isAck]
    decide
  have notDown : rule.direction ≠ .down := by
    rw [up]
    exact nofun
  have stored : ctx.storeMetadata ack = ctx := by
    simp [storeMetadata, noImmediate]
  have handled : packetHandler ctx conn ack =
      (handleUpstreamAck ctx conn ack.psn ack.isNak, []) := by
    simp only [packetHandler, stored, found, notControl, Bool.false_eq_true,
      if_false, handleByRule, notSend, isAck, if_true, notDown]
  refine ⟨⟨rule, found, up⟩, handled, fun isAcknowledged => ?_⟩
  rw [handled, isAcknowledged]
  exact latestAck_handleUpstreamAck ack.psn

theorem packetHandler_operation (ctx : SwitchContext) (conn : Nat)
    (packet : Packet) :
    ((packetHandler ctx conn packet).1.operationType,
      (packetHandler ctx conn packet).1.rootRank) = ctx.lookupKey packet := by
  rw [← storeMetadata_operation]
  rcases packetHandler_undisturbed conn packet with same | moved
  · exact Prod.ext same.operationType same.rootRank
  · exact Prod.ext moved.operationType moved.rootRank

theorem exists_rule_of_dataFrames {frame : Frame}
    (sent : frame ∈ dataFrames (packetHandler ctx conn packet).2) :
    ∃ rule, lookupRule ctx.routingTable packet.srcIp packet.dstIp
      (ctx.lookupKey packet).1 (ctx.lookupKey packet).2 = some rule := by
  have table := (storeMetadata_configuration ctx packet).routingTable
  cases found : lookupRule ctx.routingTable packet.srcIp packet.dstIp
      (ctx.lookupKey packet).1 (ctx.lookupKey packet).2 with
  | some rule => exact ⟨rule, rfl⟩
  | none =>
      simp only [packetHandler, table, found, dataFrames, List.filter_nil]
        at sent
      cases sent

end SwitchContext

namespace Topology

variable {topology : Topology} {conn host own : ConnectionConfig}
  {operation : Collective} {ctx configured : SwitchContext}

/-- Whatever has been sent to a host during the operation, its ACK or NAK is
registered while the operation is in force. -/
def AcksRegistered (topology : Topology) (configured : SwitchContext)
    (operation : Collective) : Prop :=
  ∀ before conn packet after frame target ack,
    (packetHandler (feed deliver configured before).1 conn
        packet).1.Performs operation →
    frame ∈ dataFrames
      (packetHandler (feed deliver configured before).1 conn packet).2 →
    target ∈ topology.connections → target.connId = frame.conn →
    ack.AckOf target → ack.psn = frame.psn % 2 ^ 24 →
    (feed deliver configured
      (before ++ (conn, packet) :: after)).1.Performs operation →
    (feed deliver configured
      (before ++ (conn, packet) :: after)).1.Registers frame.conn ack

/-- All hosts carry the same addresses. -/
def Alike (topology : Topology) : Prop :=
  ∀ conn ∈ topology.connections, ∀ other ∈ topology.connections,
    conn.SameAddresses other

theorem Star.hostsFirst (star : topology.Star) : topology.HostsFirst := by
  intro conn member
  have bounds := connId_lt member
  have few := star.few
  exact ⟨fun _ => by omega, fun _ => star.host conn member⟩

theorem registers_of_kept (configures : topology.Configures ctx)
    (performs : ctx.Performs operation)
    (isKept : operation.ruleOf topology.connections host ∈ topology.kept)
    (same : conn.SameAddresses host) {ack : Packet} (ackOf : ack.AckOf conn)
    (index : Nat) : ctx.Registers index ack := by
  have key : ctx.lookupKey ack = (ctx.operationType, ctx.rootRank) :=
    SwitchContext.lookupKey_ack ackOf.opcode
  obtain ⟨rule, found, up⟩ := configures.exists_rule
    (ackOf.srcIp.trans same.1) (ackOf.dstIp.trans same.2) isKept
    (show (ctx.lookupKey ack).1 = _ by rw [key]; exact performs.1)
    (show _ ∨ (ctx.lookupKey ack).2 = _ by rw [key]; exact performs.2)
  exact SwitchContext.registers_of_found ackOf.opcode found up

theorem exists_kept (configures : topology.Configures ctx) {index : Nat}
    {packet : Packet}
    (performs : (packetHandler ctx index packet).1.Performs operation)
    {frame : Frame}
    (sent : frame ∈ dataFrames (packetHandler ctx index packet).2) :
    operation.Valid topology.worldSize ∧ ∃ host ∈ topology.named,
      operation.FromConn host ∧
        operation.ruleOf topology.connections host ∈ topology.kept := by
  have key := SwitchContext.packetHandler_operation ctx index packet
  obtain ⟨rule, found⟩ := SwitchContext.exists_rule_of_dataFrames sent
  obtain ⟨valid, host, isNamed, -, -, source, isKept, -⟩ :=
    configures.exists_host found
      ((congrArg Prod.fst key).symm.trans performs.1)
      (performs.2.imp_right (congrArg Prod.snd key).symm.trans)
  exact ⟨valid, host, isNamed, source, isKept⟩

/-- AllReduce and Reduce have a rule for every host; where every host has the
sender's addresses, its rule serves them all. -/
theorem acksRegistered_of (star : topology.Star)
    (configures : topology.Configures configured)
    (condition : operation.aggregates = true ∨
      topology.connections.length = maxConnectionsNum ∨ topology.Alike) :
    topology.AcksRegistered configured operation := by
  intro before conn packet after frame target ack performs sent member _ ackOf _
    current
  have earlier := configures.congr (feed_configuration configured before)
  have now := configures.congr (feed_configuration configured
    (before ++ (conn, packet) :: after))
  obtain ⟨valid, host, isNamed, source, isKept⟩ :=
    exists_kept earlier performs sent
  have hostsFirst := star.hostsFirst
  have isHost : target ∈ topology.hosts :=
    mem_hosts.mpr ⟨member, star.host target member⟩
  have everywhere : (∀ other, operation.FromConn other) →
      (feed deliver configured
        (before ++ (conn, packet) :: after)).1.Registers frame.conn ack := by
    intro sources
    have own := hostsFirst.complete valid ⟨host, isKept⟩ isHost (sources target)
    exact registers_of_kept now current own ⟨rfl, rfl⟩ ackOf frame.conn
  cases operation with
  | allreduce => exact everywhere fun _ => trivial
  | reduce root => exact everywhere fun _ => trivial
  | broadcast root =>
      rcases condition with aggregates | ten | alike
      · cases aggregates
      · have fits := hostsFirst.fits_of_broadcast isKept
        rw [length_rules, star.hosts_eq, star.complete, ten] at fits
        exact absurd fits (by decide)
      · have hostMember := (mem_hosts.mp (named_subset isNamed)).1
        exact registers_of_kept now current isKept
          (alike target member host hostMember) ackOf frame.conn

/-- The ACK of the peer of `conn` for a PSN. -/
def ackPacket (conn : ConnectionConfig) (psn : Nat) : Packet where
  srcIp := inetAddr conn.peerIp
  dstIp := inetAddr conn.myIp
  udpLength := 28
  opcode := rdmaOpcodeAck
  apsn := htonl (BitVec.ofNat 32 psn)
  body := [0]

theorem ackPacket_ackOf (psn : Nat) : (ackPacket conn psn).AckOf conn :=
  ⟨rfl, rfl, rfl⟩

/-- A receiver of a Broadcast whose addresses are not the sender's has no
rule. -/
theorem not_acksRegistered (star : topology.Star)
    (configures : topology.Configures configured)
    (zero : configured.aggEpsn = fun _ => 0) (isRoot : configured.isRoot = true)
    (atMostNine : topology.connections.length ≤ 9) {root : Nat}
    (bound : root < topology.worldSize) (hostOf : topology.HostOf root own)
    (member : conn ∈ topology.connections)
    (different : ¬conn.SameAddresses own) :
    ¬topology.AcksRegistered configured (.broadcast root) := by
  intro registered
  have complete := star.complete
  have few : root < maxConnectionsNum := by
    simp only [maxConnectionsNum]
    omega
  have isStored : ∀ other ∈ topology.connections, other ∈ topology.stored :=
    fun other otherMember => by rwa [star.stored_eq]
  have isKept : (Collective.broadcast root).ruleOf topology.connections own ∈
      topology.kept := by
    rw [kept, List.take_of_length_le (star.length_rules_le atMostNine)]
    exact mem_rules.mpr ⟨.broadcast root, bound, own, hostOf.member,
      hostOf.host, hostOf.peerId, rfl⟩
  obtain ⟨rule, accepted⟩ := exists_accepted configures zero
    (show (Collective.broadcast root).Valid maxConnectionsNum from few)
    (isStored own hostOf.member) ⟨rfl, rfl⟩ isKept
  have low := (connId_lt member).1
  have ownLow := (connId_lt hostOf.member).1
  have isTarget : conn.connId.toNat ∈ (dataFrames (packetHandler configured
      own.connId.toNat (firstPacket own (.broadcast root))).2).map
        Frame.conn := by
    have completes : configured.Completes (.broadcast root)
        (firstPacket own (.broadcast root)) := by
      intro aggregates
      cases aggregates
    rw [accepted.dataFrames_eq, accepted.ready.targets_eq isRoot completes,
      SwitchContext.resultTargets, List.mem_filter, List.mem_range,
      configures.fanIn, lt_length_stored, decide_eq_true_eq]
    refine ⟨⟨conn, isStored conn member, by omega⟩, fun sameId => ?_⟩
    obtain rfl := eq_of_connId hostOf.member member (by omega)
    exact different ⟨rfl, rfl⟩
  obtain ⟨frame, sent, here⟩ := List.mem_map.mp isTarget
  have performs : (packetHandler configured own.connId.toNat
      (firstPacket own (.broadcast root))).1.Performs (.broadcast root) := by
    have key := SwitchContext.packetHandler_operation configured
      own.connId.toNat (firstPacket own (.broadcast root))
    exact ⟨(congrArg Prod.fst key).trans accepted.primitive,
      accepted.param.imp_right (congrArg Prod.snd key).trans⟩
  have after : (feed deliver configured ([] ++
      [(own.connId.toNat, firstPacket own (.broadcast root))])).1 =
        (packetHandler configured own.connId.toNat
          (firstPacket own (.broadcast root))).1 := rfl
  have found := (registered [] own.connId.toNat _ [] frame conn
    (ackPacket conn frame.psn) performs sent member (by omega)
    (ackPacket_ackOf frame.psn) (Packet.psn_of_apsn rfl)
    (by rw [after]; exact performs)).found
  obtain ⟨found, isFound, -⟩ := found
  have now := configures.congr (feed_configuration configured
    ([] ++ [(own.connId.toNat, firstPacket own (.broadcast root))]))
  rw [SwitchContext.lookupKey_ack rfl, after] at isFound
  obtain ⟨-, host, isNamed, sameSrc, sameDst, source, -⟩ :=
    now.exists_host isFound performs.1 performs.2
  obtain ⟨hostMember, isHost⟩ := mem_hosts.mp (named_subset isNamed)
  obtain rfl := hostOf.unique host hostMember isHost source
  exact different ⟨sameSrc, sameDst⟩

/-- Every ACK and NAK finds its rule exactly for the operations other than
Broadcast, unless the rules of Broadcast are lost or one address serves all. -/
theorem acksRegistered_iff (star : topology.Star) {reader : YamlReader}
    (reads : reader.Reads) {switches : List SwitchConfig} {position : Nat}
    {id : Int} (fits : FitsInt id)
    (found : switches[position]? = some (topology.switchConfig id))
    (isRoot : ctx.isRoot = true) (valid : operation.Valid topology.worldSize) :
    (∀ configured, reader.parseYamlConfig ctx
        (generateYamlForSwitch topology.worldSize switches position) =
          (configured, true) →
      topology.AcksRegistered configured operation) ↔
      operation.aggregates = true ∨
        topology.connections.length = maxConnectionsNum ∨ topology.Alike := by
  rw [star.parseYamlConfig_eq reads fits found]
  have configures := topology.configures reader id ctx
  constructor
  · intro always
    have registered := always _ rfl
    cases operation with
    | allreduce => exact Or.inl rfl
    | reduce root => exact Or.inl rfl
    | broadcast root =>
        by_contra violated
        push Not at violated
        obtain ⟨-, notTen, notAlike⟩ := violated
        obtain ⟨own, hostOf⟩ := exists_hostOf valid
        have few := star.few
        simp only [maxConnectionsNum] at few notTen
        have atMostNine : topology.connections.length ≤ 9 := by omega
        apply notAlike
        have same : ∀ conn ∈ topology.connections,
            conn.SameAddresses own := by
          intro conn member
          by_contra different
          exact not_acksRegistered star configures rfl isRoot atMostNine valid
            hostOf member different registered
        intro conn member other otherMember
        have left := same conn member
        have right := same other otherMember
        exact ⟨left.1.trans right.1.symm, left.2.trans right.2.symm⟩
  · intro condition configured same
    obtain rfl := congrArg Prod.fst same
    exact acksRegistered_of star configures condition

/-- The same two hosts have the ACKs of a Reduce registered and those of a
Broadcast not. -/
theorem acksRegistered_iff_crossed :
    (∀ configured, plainReader.parseYamlConfig
        { switchContextInit 0 with isRoot := true }
        (generateYamlForSwitch 2 [crossed.switchConfig 0] 0) =
          (configured, true) →
      crossed.AcksRegistered configured (.reduce 1)) ∧
    ¬∀ configured, plainReader.parseYamlConfig
        { switchContextInit 0 with isRoot := true }
        (generateYamlForSwitch 2 [crossed.switchConfig 0] 0) =
          (configured, true) →
      crossed.AcksRegistered configured (.broadcast 0) := by
  have fits : FitsInt 0 := by
    decide
  have found : [crossed.switchConfig 0][0]? =
      some (crossed.switchConfig 0) := rfl
  have reduces : (Collective.reduce 1).Valid crossed.worldSize := by
    decide
  have broadcasts : (Collective.broadcast 0).Valid crossed.worldSize := by
    decide
  constructor
  · exact (acksRegistered_iff crossed_star plainReader_reads fits found rfl
      reduces).mpr (Or.inl rfl)
  · intro always
    rcases (acksRegistered_iff crossed_star plainReader_reads fits found rfl
      broadcasts).mp always with aggregates | ten | alike
    · cases aggregates
    · exact absurd ten (by decide)
    · have same := alike (crossed.connections.head (by decide)) (by decide)
        (crossed.connections.getLast (by decide)) (by decide)
      revert same
      unfold ConnectionConfig.SameAddresses
      decide +kernel

/-- Rank 1 receives a Broadcast of rank 0 and its ACK finds no rule. -/
theorem not_acksRegistered_crossed :
    ¬∀ topology : Topology, topology.Star →
      ∀ reader : YamlReader, reader.Reads →
      ∀ ctx : SwitchContext, ctx.isRoot = true →
      ∀ operation : Collective, operation.Valid topology.worldSize →
      ∀ configured, reader.parseYamlConfig ctx
          (generateYamlForSwitch topology.worldSize
            [topology.switchConfig 0] 0) = (configured, true) →
        topology.AcksRegistered configured operation := by
  intro always
  have parsed := crossed_star.parseYamlConfig_eq plainReader_reads
    (by decide : FitsInt 0)
    (show [crossed.switchConfig 0][0]? = some (crossed.switchConfig 0) from rfl)
    { switchContextInit 0 with isRoot := true }
  have registered := always crossed crossed_star plainReader plainReader_reads
    _ rfl (.broadcast 0)
    (show (Collective.broadcast 0).Valid crossed.worldSize by decide) _ parsed
  have bound : 0 < crossed.worldSize := by
    decide
  obtain ⟨own, hostOf⟩ := exists_hostOf bound
  have second : crossed.connections.getLast (by decide) ∈
      crossed.connections := by
    decide
  obtain rfl := hostOf.unique _ second rfl rfl
  have first : crossed.connections.head (by decide) ∈
      crossed.connections := by
    decide
  have different : ¬(crossed.connections.head (by decide)).SameAddresses
      (crossed.connections.getLast (by decide)) := by
    unfold ConnectionConfig.SameAddresses
    decide +kernel
  exact not_acksRegistered crossed_star (crossed.configures plainReader 0 _)
    rfl rfl (by decide) bound hostOf first different registered

end Topology

end IncEmulation
