import IncEmulation.Forwarding

/-!
# Where the rules and the forwarding code agree

The switch awaits every stored connection and the rules name the hosts, so the
two agree exactly when the stored connections are the hosts and no other host
answers to the addresses of a broadcasting rank.
-/

namespace IncEmulation

open Unique Machine

namespace Topology

variable {topology : Topology} {conn host own : ConnectionConfig}
  {operation : Collective} {ctx : SwitchContext} {packet : Packet}
  {rule : Rule}

/-- A packet of the peer of a stored connection that the switch accepts. -/
structure Accepted (topology : Topology) (ctx : SwitchContext)
    (conn : ConnectionConfig) (packet : Packet) (operation : Collective)
    (rule : Rule) : Prop
    extends ctx.Accepts conn.connId.toNat packet operation rule where
  stored : conn ∈ topology.stored
  srcIp : packet.srcIp = inetAddr conn.peerIp
  dstIp : packet.dstIp = inetAddr conn.myIp

/-- The switch awaits the connections with a rule and sends a completed PSN to
the connections the rule names. -/
structure Agrees (ctx : SwitchContext) (conn : Nat) (packet : Packet)
    (operation : Collective) (rule : Rule) : Prop where
  awaited : (ctx.awaited operation conn : Set Nat) = ctx.uplinks operation
  targets : ctx.Completes operation packet → ∀ target,
    target ∈ (dataFrames (packetHandler ctx conn packet).2).map Frame.conn ↔
      target ∈ rule.outConns

/-- Some stored connection has the addresses of a host with a rule. -/
def Accepting (topology : Topology) : Prop :=
  ∃ conn ∈ topology.stored, ∃ host ∈ topology.named, conn.SameAddresses host

/-- No other host has the addresses of a rank's host. -/
def Senders (topology : Topology) : Prop :=
  ∀ rank < topology.worldSize, ∀ own, topology.HostOf rank own →
    ∀ conn ∈ topology.hosts, conn.SameAddresses own → conn = own

theorem mem_uplinks (configures : topology.Configures ctx) {index : Nat} :
    index ∈ ctx.uplinks operation ↔
      ∃ host ∈ topology.named, operation.FromConn host ∧
        operation.ruleOf topology.connections host ∈ topology.kept ∧
          host.connId = index := by
  constructor
  · rintro ⟨rule, inTable, -, primitive, param, same⟩
    rw [configures.rules_eq] at inTable
    obtain ⟨config, isKept, rfl⟩ := List.mem_map.mp inTable
    obtain ⟨other, -, host, isNamed, source, rfl⟩ := mem_kept isKept
    have metadata : other.metadata = operation.metadata :=
      Prod.ext (Collective.ruleOf_primitive.symm.trans primitive)
        (Collective.ruleOf_primitiveParam.symm.trans param)
    obtain rfl := Collective.metadata_injective metadata
    exact ⟨host, isNamed, source, isKept,
      Collective.ruleOf_connId.symm.trans same⟩
  · rintro ⟨host, -, -, isKept, same⟩
    refine ⟨(operation.ruleOf topology.connections host).toRule, ?_,
      Collective.ruleOf_direction, Collective.ruleOf_primitive,
      Collective.ruleOf_primitiveParam, Collective.ruleOf_connId.trans same⟩
    rw [configures.rules_eq]
    exact List.mem_map_of_mem isKept

theorem mem_outConns (valid : operation.Valid topology.worldSize)
    {target : Nat} :
    target ∈ (operation.ruleOf topology.connections host).toRule.outConns ↔
      ∃ other ∈ topology.stored, other.isSwitch = false ∧
        operation.Reaches other ∧ other.connId = target := by
  have serves : topology.Serves operation host
      (operation.ruleOf topology.connections host) := serves_ruleOf valid
  rw [RuleConfig.toRule, mem_outConnsOf serves.once, serves.outConns]
  constructor
  · rintro ⟨⟨other, member, isHost, reaches, same⟩, few⟩
    exact ⟨other, mem_stored.mpr ⟨member, by omega⟩, isHost, reaches, same⟩
  · rintro ⟨other, inside, isHost, reaches, same⟩
    obtain ⟨member, few⟩ := mem_stored.mp inside
    exact ⟨⟨other, member, isHost, reaches, same⟩, by omega⟩

theorem Accepted.exists_source
    (accepted : topology.Accepted ctx conn packet operation rule)
    (configures : topology.Configures ctx) :
    operation.Valid topology.worldSize ∧ ∃ host ∈ topology.named,
      conn.SameAddresses host ∧ operation.FromConn host ∧
        operation.ruleOf topology.connections host ∈ topology.kept ∧
          rule = (operation.ruleOf topology.connections host).toRule := by
  obtain ⟨valid, host, isNamed, sameSrc, sameDst, source, isKept, same⟩ :=
    configures.exists_host accepted.found accepted.primitive accepted.param
  exact ⟨valid, host, isNamed,
    ⟨accepted.srcIp.symm.trans sameSrc, accepted.dstIp.symm.trans sameDst⟩,
    source, isKept, same⟩

section Sufficient

theorem named_subset (isNamed : host ∈ topology.named) :
    host ∈ topology.hosts := List.mem_of_mem_take isNamed

theorem HostsFirst.mem_stored_iff (hostsFirst : topology.HostsFirst) :
    conn ∈ topology.stored ↔ conn ∈ topology.hosts := by
  rw [mem_stored, mem_hosts]
  exact and_congr_right fun member => (hostsFirst conn member).symm

theorem HostsFirst.named_eq (hostsFirst : topology.HostsFirst) :
    topology.named = topology.hosts :=
  List.take_of_length_le
    (Nat.le_trans hostsFirst.length_hosts_le (by decide))

theorem HostsFirst.fits_of_broadcast (hostsFirst : topology.HostsFirst)
    {root : Nat} (isKept : (Collective.broadcast root).ruleOf
      topology.connections host ∈ topology.kept) :
    topology.rules.length ≤ maxRules := by
  by_contra full
  rw [hostsFirst.kept_eq full, List.mem_append] at isKept
  rcases isKept with early | late
  · obtain ⟨other, -, same⟩ := List.mem_map.mp early
    cases congrArg RuleConfig.primitive same
  · obtain ⟨other, -, inBlock⟩ := List.mem_flatMap.mp late
    obtain ⟨third, -, same⟩ := List.mem_map.mp inBlock
    cases congrArg RuleConfig.primitive same

theorem HostsFirst.eq_sender (hostsFirst : topology.HostsFirst)
    (senders : topology.rules.length ≤ maxRules → topology.Senders)
    {root : Nat} (bound : root < topology.worldSize)
    (isStored : conn ∈ topology.stored) (isNamed : host ∈ topology.named)
    (same : conn.SameAddresses host) (source : host.peerId = root)
    (isKept : (Collective.broadcast root).ruleOf topology.connections host ∈
      topology.kept) :
    topology.HostOf root conn := by
  obtain ⟨own, hostOf⟩ := exists_hostOf bound
  obtain ⟨member, isHost⟩ := mem_hosts.mp (named_subset isNamed)
  obtain rfl := hostOf.unique host member isHost source
  have sender := senders (hostsFirst.fits_of_broadcast isKept) root bound host
    hostOf conn (hostsFirst.mem_stored_iff.mp isStored) same
  rwa [sender]

theorem awaited_eq_uplinks (configures : topology.Configures ctx)
    (hostsFirst : topology.HostsFirst)
    (senders : topology.rules.length ≤ maxRules → topology.Senders)
    (accepted : topology.Accepted ctx conn packet operation rule) :
    (ctx.awaited operation conn.connId.toNat : Set Nat) =
      ctx.uplinks operation := by
  obtain ⟨valid, host, isNamed, same, source, isKept, -⟩ :=
    accepted.exists_source configures
  ext index
  rw [mem_uplinks configures, SwitchContext.awaited]
  have aggregated : (∀ other, operation.FromConn other) →
      (index < ctx.fanIn ↔ ∃ host ∈ topology.named, operation.FromConn host ∧
        operation.ruleOf topology.connections host ∈ topology.kept ∧
          host.connId = index) := by
    intro everywhere
    rw [configures.fanIn, lt_length_stored, hostsFirst.named_eq]
    constructor
    · rintro ⟨other, inside, id⟩
      have isHost := hostsFirst.mem_stored_iff.mp inside
      exact ⟨other, isHost, everywhere other,
        hostsFirst.complete valid ⟨host, isKept⟩ isHost (everywhere other), id⟩
    · rintro ⟨other, isHost, -, -, id⟩
      exact ⟨other, hostsFirst.mem_stored_iff.mpr isHost, id⟩
  cases operation with
  | allreduce =>
      simp only [Collective.aggregates, if_true, Finset.coe_range, Set.mem_Iio]
      exact aggregated fun _ => trivial
  | reduce root =>
      simp only [Collective.aggregates, if_true, Finset.coe_range, Set.mem_Iio]
      exact aggregated fun _ => trivial
  | broadcast root =>
      have sender := hostsFirst.eq_sender senders valid accepted.stored isNamed
        same source isKept
      have low := (connId_lt sender.member).1
      have isHost := mem_hosts.mpr ⟨sender.member, sender.host⟩
      simp only [Collective.aggregates, Bool.false_eq_true, if_false,
        Finset.coe_singleton, Set.mem_singleton_iff]
      constructor
      · rintro rfl
        refine ⟨conn, hostsFirst.named_eq ▸ isHost, sender.peerId, ?_, ?_⟩
        · exact hostsFirst.complete valid ⟨host, isKept⟩ isHost sender.peerId
        · omega
      · rintro ⟨other, otherNamed, otherSource, -, id⟩
        obtain ⟨member, otherHost⟩ := mem_hosts.mp (named_subset otherNamed)
        obtain rfl := sender.unique other member otherHost otherSource
        omega

theorem resultTargets_eq (configures : topology.Configures ctx)
    (hostsFirst : topology.HostsFirst)
    (senders : topology.rules.length ≤ maxRules → topology.Senders)
    (accepted : topology.Accepted ctx conn packet operation rule)
    (target : Nat) :
    target ∈ ctx.resultTargets rule conn.connId.toNat operation ↔
      target ∈ rule.outConns := by
  obtain ⟨valid, host, isNamed, same, source, isKept, rfl⟩ :=
    accepted.exists_source configures
  cases operation with
  | allreduce =>
      rw [SwitchContext.resultTargets, List.mem_filter, decide_eq_true_eq]
      refine and_iff_left_of_imp fun isOut => ?_
      obtain ⟨other, inside, -, -, id⟩ := (mem_outConns valid).mp isOut
      rw [configures.fanIn]
      exact lt_length_stored.mpr ⟨other, inside, id⟩
  | reduce root =>
      obtain ⟨own, hostOf⟩ := exists_hostOf valid
      have isStored := hostsFirst.mem_stored_iff.mpr
        (mem_hosts.mpr ⟨hostOf.member, hostOf.host⟩)
      have low := (connId_lt hostOf.member).1
      have small : topology.hosts.length ≤ 10 := hostsFirst.length_hosts_le
      have bound : root < topology.worldSize := valid
      have ranks := topology.worldSize_le_hosts
      have recorded : ctx.rankToConn root = own.connId := by
        rw [configures.rankToConn]
        refine foldl_record_of_mem (Int.natCast_nonneg root) ?_
          ⟨own, isStored, hostOf.host, hostOf.peerId⟩ ?_ _
        · simp only [maxRanks]
          omega
        · intro other inside isHost peer
          rw [hostOf.unique other (mem_stored.mp inside).1 isHost peer]
      have placed : own.connId < ctx.fanIn := by
        have inRange : own.connId.toNat < topology.stored.length :=
          lt_length_stored.mpr ⟨own, isStored, by omega⟩
        rw [configures.fanIn]
        omega
      rw [SwitchContext.resultTargets, recorded, if_pos ⟨low, placed⟩,
        List.mem_singleton, mem_outConns valid]
      constructor
      · rintro rfl
        exact ⟨own, isStored, hostOf.host, hostOf.peerId, by omega⟩
      · rintro ⟨other, inside, isHost, peer, id⟩
        obtain rfl := hostOf.unique other (mem_stored.mp inside).1 isHost peer
        omega
  | broadcast root =>
      have sender := hostsFirst.eq_sender senders valid accepted.stored isNamed
        same source isKept
      have low := (connId_lt sender.member).1
      rw [SwitchContext.resultTargets, List.mem_filter, List.mem_range,
        configures.fanIn, lt_length_stored, mem_outConns valid,
        decide_eq_true_eq]
      constructor
      · rintro ⟨⟨other, inside, id⟩, different⟩
        obtain ⟨-, isHost⟩ := mem_hosts.mp (hostsFirst.mem_stored_iff.mp inside)
        refine ⟨other, inside, isHost, fun peer => different ?_, id⟩
        obtain rfl := sender.unique other (mem_stored.mp inside).1 isHost peer
        omega
      · rintro ⟨other, inside, isHost, notSender, id⟩
        refine ⟨⟨other, inside, id⟩, fun sameId => notSender ?_⟩
        have here := eq_of_connId sender.member (mem_stored.mp inside).1
          (by omega)
        rw [here]
        exact sender.peerId

end Sufficient

section Necessary

/-- The first packet of the peer of `conn`, announcing the operation. -/
def firstPacket (conn : ConnectionConfig)
    (operation : Collective) : Packet where
  srcIp := inetAddr conn.peerIp
  dstIp := inetAddr conn.myIp
  udpLength := 36
  opcode := rdmaOpcodeSendOnlyWithImm
  apsn := 0
  body := [htonl operation.immData, 0, 0]

theorem firstPacket_psn : (firstPacket conn operation).psn = 0 := by
  show (ntohl 0 &&& 0x00FFFFFF#32).toNat = 0
  decide

theorem announced_firstPacket (small : operation.Valid maxConnectionsNum) :
    (firstPacket conn operation).announced = operation.metadata := by
  have immediate : (firstPacket conn operation).immData =
      operation.immData := by
    simp [firstPacket, Packet.immData, Packet.bodyWord]
  cases operation with
  | broadcast root =>
      exact Packet.announced_of_immData (Nat.le_refl _) small
        (show (Collective.broadcast root).Admissible _ root from rfl) immediate
  | allreduce =>
      exact Packet.announced_of_immData (Nat.le_refl _)
        (by decide : 0 < maxConnectionsNum) trivial immediate
  | reduce root =>
      exact Packet.announced_of_immData (Nat.le_refl _)
        (by decide : 0 < maxConnectionsNum)
        (show (Collective.reduce root).Admissible _ 0 from small) immediate

/-- A rule for the peer's addresses lets its first packet in. -/
theorem exists_accepted (configures : topology.Configures ctx)
    (zero : ctx.aggEpsn = fun _ => 0)
    (small : operation.Valid maxConnectionsNum)
    (isStored : conn ∈ topology.stored) (same : conn.SameAddresses host)
    (isKept : operation.ruleOf topology.connections host ∈ topology.kept) :
    ∃ rule, topology.Accepted ctx conn (firstPacket conn operation) operation
      rule := by
  have key : ctx.lookupKey (firstPacket conn operation) =
      operation.metadata := announced_firstPacket small
  obtain ⟨rule, found, up⟩ := configures.exists_rule same.1 same.2 isKept
    (congrArg Prod.fst key) (Or.inr (congrArg Prod.snd key))
  exact ⟨rule, {
    isSend := rfl
    notControl := rfl
    primitive := congrArg Prod.fst key
    param := Or.inr (congrArg Prod.snd key)
    found := found
    up := up
    expected := by
      rw [zero]
      exact firstPacket_psn
    stored := isStored
    srcIp := rfl
    dstIp := rfl }⟩

/-- What agreement about the first packets says. -/
structure FirstAgree (topology : Topology) (ctx : SwitchContext) : Prop where
  agrees : ∀ conn operation rule,
    topology.Accepted ctx conn (firstPacket conn operation) operation rule →
      (ctx.awaited operation conn.connId.toNat : Set Nat) =
        ctx.uplinks operation

namespace FirstAgree

variable (firstAgree : topology.FirstAgree ctx)
  (configures : topology.Configures ctx) (zero : ctx.aggEpsn = fun _ => 0)

include firstAgree configures zero

/-- All stored connections are awaited, so they are hosts with a rule. -/
theorem hostsFirst (accepting : topology.Accepting) : topology.HostsFirst := by
  obtain ⟨conn, isStored, host, isNamed, same⟩ := accepting
  obtain ⟨rule, accepted⟩ := exists_accepted configures zero
    (show Collective.allreduce.Valid maxConnectionsNum from trivial) isStored
    same (allreduce_mem_kept isNamed)
  have awaited := firstAgree.agrees conn .allreduce rule accepted
  have iff : ∀ index, index < ctx.fanIn ↔
      index ∈ ctx.uplinks .allreduce := by
    intro index
    rw [← awaited, SwitchContext.awaited]
    simp [Collective.aggregates]
  simp only [configures.fanIn, lt_length_stored, mem_uplinks configures] at iff
  have few : ∀ other ∈ topology.named, other.connId < maxConnectionsNum := by
    intro other otherNamed
    have low := (connId_lt (mem_hosts.mp (named_subset otherNamed)).1).1
    obtain ⟨third, inside, id⟩ := (iff other.connId.toNat).mpr
      ⟨other, otherNamed, trivial, allreduce_mem_kept otherNamed, by omega⟩
    have small := (mem_stored.mp inside).2
    omega
  have all : topology.named = topology.hosts := by
    have short : topology.named.length ≤ maxConnectionsNum :=
      length_le_of_ids (List.take_sublist _ _) few
    refine List.take_of_length_le ?_
    rw [named, List.length_take] at short
    simp only [maxConnectionsNum, maxRules] at short ⊢
    omega
  intro other member
  constructor
  · intro isHost
    exact few other (all ▸ mem_hosts.mpr ⟨member, isHost⟩)
  · intro small
    have low := (connId_lt member).1
    obtain ⟨third, thirdNamed, -, -, id⟩ := (iff other.connId.toNat).mp
      ⟨other, mem_stored.mpr ⟨member, small⟩, by omega⟩
    obtain ⟨thirdMember, isHost⟩ := mem_hosts.mp (named_subset thirdNamed)
    obtain rfl := eq_of_connId member thirdMember (by omega)
    exact isHost

/-- Only the sender's own connection has its rule. -/
theorem senders (hostsFirst : topology.HostsFirst)
    (fits : topology.rules.length ≤ maxRules) : topology.Senders := by
  intro rank bound own hostOf conn isHost same
  have small : topology.hosts.length ≤ 10 := hostsFirst.length_hosts_le
  have ranks := topology.worldSize_le_hosts
  have isKept : (Collective.broadcast rank).ruleOf topology.connections own ∈
      topology.kept := by
    rw [kept, List.take_of_length_le fits]
    exact mem_rules.mpr ⟨.broadcast rank, bound, own, hostOf.member,
      hostOf.host, hostOf.peerId, rfl⟩
  have few : rank < maxConnectionsNum := by
    simp only [maxConnectionsNum]
    omega
  obtain ⟨rule, accepted⟩ := exists_accepted configures zero
    (show (Collective.broadcast rank).Valid maxConnectionsNum from few)
    (hostsFirst.mem_stored_iff.mpr isHost) same isKept
  have awaited := firstAgree.agrees conn (.broadcast rank) rule accepted
  have inside : own.connId.toNat ∈
      ctx.uplinks (.broadcast rank) := by
    have low := (connId_lt hostOf.member).1
    have isNamed : own ∈ topology.named :=
      hostsFirst.named_eq ▸ mem_hosts.mpr ⟨hostOf.member, hostOf.host⟩
    exact (mem_uplinks configures).mpr
      ⟨own, isNamed, hostOf.peerId, isKept, by omega⟩
  rw [← awaited] at inside
  have sameId : own.connId.toNat = conn.connId.toNat := by
    simpa [SwitchContext.awaited, Collective.aggregates] using inside
  have member := (mem_hosts.mp isHost).1
  have ownLow := (connId_lt hostOf.member).1
  have connLow := (connId_lt member).1
  exact eq_of_connId hostOf.member member (by omega)

end FirstAgree

end Necessary

/-- The rules and the forwarding code agree on every packet that a switch
accepts exactly when, unless it accepts none, the stored connections are the
hosts and, where the table has room for the rules of Broadcast, the addresses
of a rank belong to its host alone. -/
theorem agrees_iff (topology : Topology) {reader : YamlReader}
    (reads : reader.Reads) (fits : ∀ conn ∈ topology.connections, conn.Fits)
    (world : FitsInt topology.worldSize) {id : Int} (idFits : FitsInt id)
    {switches : List SwitchConfig} {position : Nat}
    (found : switches[position]? = some (topology.switchConfig id))
    {ctx : SwitchContext} (isRoot : ctx.isRoot = true) :
    (∀ configured, reader.parseYamlConfig ctx
        (generateYamlForSwitch topology.worldSize switches position) =
          (configured, true) →
      ∀ arrivals conn packet operation rule,
        topology.Accepted (feed deliver configured arrivals).1 conn packet
            operation rule →
          Agrees (feed deliver configured arrivals).1 conn.connId.toNat packet
            operation rule) ↔
      (topology.Accepting → topology.HostsFirst ∧
        (topology.rules.length ≤ maxRules → topology.Senders)) := by
  have configures := topology.configures reader id ctx
  have zero : (ctx.configure reader (topology.switchConfig id)).aggEpsn =
      fun _ => 0 := rfl
  rw [parseYamlConfig_encode reads topology.worldSize found
    (switchConfig_fits (fun conn member => (fits conn member).connId)
      (fun conn member => (fits conn member).peerId) world idFits) ctx]
  constructor
  · intro always accepting
    have firstAgree : topology.FirstAgree
        (ctx.configure reader (topology.switchConfig id)) :=
      ⟨fun conn operation rule accepted =>
        (always _ rfl [] conn _ operation rule accepted).awaited⟩
    have hostsFirst := firstAgree.hostsFirst configures zero accepting
    exact ⟨hostsFirst, firstAgree.senders configures zero hostsFirst⟩
  · intro condition configured same arrivals conn packet operation rule accepted
    obtain rfl := congrArg Prod.fst same
    have kept := feed_configuration
      (ctx.configure reader (topology.switchConfig id)) arrivals
    have now := configures.congr kept
    obtain ⟨-, host, isNamed, addresses, -⟩ := accepted.exists_source now
    obtain ⟨hostsFirst, senders⟩ :=
      condition ⟨conn, accepted.stored, host, isNamed, addresses⟩
    refine ⟨awaited_eq_uplinks now hostsFirst senders accepted, ?_⟩
    intro completes target
    have root : (feed deliver (ctx.configure reader (topology.switchConfig id))
        arrivals).1.isRoot = true := kept.isRoot.trans isRoot
    rw [accepted.dataFrames_eq, accepted.ready.targets_eq root completes]
    exact resultTargets_eq now hostsFirst senders accepted target

theorem crossed_senders : crossed.Senders := by
  have distinct : crossed.Distinct := by
    decide +kernel
  intro rank _ own hostOf conn isHost same
  exact distinct conn (mem_hosts.mp isHost).1 own hostOf.member same.1 same.2

theorem agrees_iff_crossed :
    (∀ configured, plainReader.parseYamlConfig
        { switchContextInit 0 with isRoot := true }
        (generateYamlForSwitch 2 [crossed.switchConfig 0] 0) =
          (configured, true) →
      ∀ arrivals conn packet operation rule,
        crossed.Accepted (feed deliver configured arrivals).1 conn packet
            operation rule →
          Agrees (feed deliver configured arrivals).1 conn.connId.toNat packet
            operation rule) ↔ True := by
  have hostsFirst : crossed.HostsFirst := by
    unfold HostsFirst
    decide
  exact (agrees_iff crossed plainReader_reads crossed_star.fits
    (by decide : FitsInt 2) (by decide : FitsInt 0)
    (show [crossed.switchConfig 0][0]? = some (crossed.switchConfig 0) from rfl)
    rfl).trans
      (iff_true_intro fun _ => ⟨hostsFirst, fun _ => crossed_senders⟩)

/-- The switch between the hosts is awaited but has no rule. -/
theorem not_agrees_besideSwitch :
    ¬∀ topology : Topology, (∀ conn ∈ topology.connections, conn.Fits) →
      FitsInt topology.worldSize →
      ∀ reader : YamlReader, reader.Reads →
      ∀ ctx : SwitchContext, ctx.isRoot = true →
      ∀ configured, reader.parseYamlConfig ctx
          (generateYamlForSwitch topology.worldSize
            [topology.switchConfig 0] 0) = (configured, true) →
        ∀ arrivals conn packet operation rule,
          topology.Accepted (feed deliver configured arrivals).1 conn packet
              operation rule →
            Agrees (feed deliver configured arrivals).1 conn.connId.toNat packet
              operation rule := by
  intro always
  have fits : ∀ conn ∈ besideSwitch.connections, conn.Fits := by
    decide
  have world : FitsInt besideSwitch.worldSize := by
    decide
  have parsed := parseYamlConfig_encode plainReader_reads besideSwitch.worldSize
    (show [besideSwitch.switchConfig 0][0]? =
      some (besideSwitch.switchConfig 0) from rfl)
    (switchConfig_fits (fun conn member => (fits conn member).connId)
      (fun conn member => (fits conn member).peerId) world
      (by decide : FitsInt 0)) { switchContextInit 0 with isRoot := true }
  have agrees := always besideSwitch fits world plainReader plainReader_reads
    { switchContextInit 0 with isRoot := true } rfl _ parsed []
  have firstAgree : besideSwitch.FirstAgree
      (SwitchContext.configure { switchContextInit 0 with isRoot := true }
        plainReader (besideSwitch.switchConfig 0)) :=
    ⟨fun conn operation rule accepted =>
      (agrees conn _ operation rule accepted).awaited⟩
  have accepting : besideSwitch.Accepting := by
    have isStored : besideSwitch.connections.head (by decide) ∈
        besideSwitch.stored := by
      decide
    have isNamed : besideSwitch.connections.head (by decide) ∈
        besideSwitch.named := by
      decide
    exact ⟨_, isStored, _, isNamed, rfl, rfl⟩
  have hostsFirst := firstAgree.hostsFirst
    (besideSwitch.configures plainReader 0 _) rfl accepting
  have notHost : ¬besideSwitch.HostsFirst := by
    unfold HostsFirst
    decide
  exact notHost hostsFirst

end Topology

end IncEmulation
