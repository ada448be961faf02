import IncEmulation.Aggregation
import IncEmulation.HandlerFrame
import IncEmulation.RoundTrip

/-!
# Rules and forwarding

The controller's rules name the connections an operation comes from and goes to;
the switch waits for `fan_in` contributions and sends to connections of its own
choice.  The two agree on a switch whose stored connections are its hosts.
-/

namespace IncEmulation

open Unique Machine

/-- Packets of the two peers carry the same addresses. -/
def ConnectionConfig.SameAddresses (left right : ConnectionConfig) : Prop :=
  inetAddr left.peerIp = inetAddr right.peerIp ∧
    inetAddr left.myIp = inetAddr right.myIp

namespace Topology

/-- The rules the table has room for. -/
def kept (topology : Topology) : List RuleConfig :=
  topology.rules.take maxRules

/-- The hosts whose rule for AllReduce the table has room for. -/
def named (topology : Topology) : List ConnectionConfig :=
  topology.hosts.take maxRules

/-- The stored connections are the hosts. -/
def HostsFirst (topology : Topology) : Prop :=
  ∀ conn ∈ topology.connections,
    conn.isSwitch = false ↔ conn.connId < maxConnectionsNum

variable {topology : Topology} {conn host : ConnectionConfig}
  {operation : Collective} {ctx : SwitchContext}

theorem mem_hosts :
    conn ∈ topology.hosts ↔
      conn ∈ topology.connections ∧ conn.isSwitch = false := by
  simp [hosts]

theorem mem_stored :
    conn ∈ topology.stored ↔
      conn ∈ topology.connections ∧ conn.connId < maxConnectionsNum := by
  rw [stored, List.mem_take_iff_getElem]
  constructor
  · rintro ⟨index, bound, rfl⟩
    have inRange : index < topology.connections.length := by omega
    have id : topology.connections[index].connId = index :=
      topology.connId_eq index inRange
    exact ⟨List.getElem_mem inRange, by omega⟩
  · rintro ⟨member, few⟩
    obtain ⟨nonnegative, stands⟩ := getElem?_connId member
    obtain ⟨bound, here⟩ := List.getElem?_eq_some_iff.mp stands
    exact ⟨conn.connId.toNat, by omega, here⟩

theorem lt_length_stored {index : Nat} :
    index < topology.stored.length ↔
      ∃ conn ∈ topology.stored, conn.connId = index := by
  constructor
  · intro bound
    have inRange : index < topology.connections.length := by
      rw [stored, List.length_take] at bound
      omega
    have few : index < maxConnectionsNum := by
      rw [stored, List.length_take] at bound
      omega
    have id := topology.connId_eq index inRange
    refine ⟨_, mem_stored.mpr ⟨List.get_mem _ ⟨index, inRange⟩, ?_⟩, id⟩
    omega
  · rintro ⟨conn, inside, same⟩
    obtain ⟨member, few⟩ := mem_stored.mp inside
    have bounds := connId_lt member
    rw [stored, List.length_take]
    omega

theorem nodup_hostIds : (topology.hosts.map ConnectionConfig.connId).Nodup :=
  nodup_connIds _

theorem worldSize_le_hosts (topology : Topology) :
    topology.worldSize ≤ topology.hosts.length := by
  have ranks : ((List.range topology.worldSize).map Int.ofNat).Nodup :=
    List.nodup_range.map fun _ _ => Int.ofNat.inj
  have inside : (List.range topology.worldSize).map Int.ofNat ⊆
      topology.hosts.map ConnectionConfig.peerId := by
    intro rank isRank
    obtain ⟨rank, inRange, rfl⟩ := List.mem_map.mp isRank
    obtain ⟨conn, hostOf⟩ := exists_hostOf (List.mem_range.mp inRange)
    exact List.mem_map.mpr
      ⟨conn, mem_hosts.mpr ⟨hostOf.member, hostOf.host⟩, hostOf.peerId⟩
  have shorter := (ranks.subperm inside).length_le
  simpa using shorter

theorem length_le_of_ids {conns : List ConnectionConfig}
    (sublist : conns.Sublist topology.hosts)
    (few : ∀ conn ∈ conns, conn.connId < maxConnectionsNum) :
    conns.length ≤ maxConnectionsNum := by
  have once : (conns.map ConnectionConfig.connId).Nodup :=
    nodup_hostIds.sublist (sublist.map _)
  have inside : conns.map ConnectionConfig.connId ⊆
      (List.range maxConnectionsNum).map Int.ofNat := by
    intro id isId
    obtain ⟨conn, member, rfl⟩ := List.mem_map.mp isId
    have bounds := connId_lt (mem_hosts.mp (sublist.subset member)).1
    have small := few conn member
    refine List.mem_map.mpr ⟨conn.connId.toNat, List.mem_range.mpr ?_, ?_⟩
    · omega
    · exact Int.toNat_of_nonneg bounds.1
  have shorter := (once.subperm inside).length_le
  simpa using shorter

theorem mem_kept {config : RuleConfig} (inside : config ∈ topology.kept) :
    ∃ operation : Collective, operation.Valid topology.worldSize ∧
      ∃ host ∈ topology.named, operation.FromConn host ∧
        config = operation.ruleOf topology.connections host := by
  have split : topology.rules = topology.hosts.map
      (Collective.allreduce.ruleOf topology.connections ·) ++
        (generateReduceRules topology.connections topology.worldSize ++
          generateBroadcastRules topology.connections topology.worldSize) := by
    rw [rules, generateRules, List.append_assoc]
    rfl
  have generated := List.mem_of_mem_take inside
  rw [kept, split, List.take_append, List.mem_append] at inside
  rcases inside with early | late
  · rw [← List.map_take, List.mem_map] at early
    obtain ⟨host, isNamed, rfl⟩ := early
    exact ⟨.allreduce, trivial, host, isNamed, trivial, rfl⟩
  · have room : topology.hosts.length ≤ maxRules := by
      by_contra full
      rw [List.length_map, Nat.sub_eq_zero_of_le (by omega),
        List.take_zero] at late
      cases late
    obtain ⟨operation, valid, host, member, isHost, source, rfl⟩ :=
      mem_rules.mp generated
    refine ⟨operation, valid, host, ?_, source, rfl⟩
    rw [named, List.take_of_length_le room]
    exact mem_hosts.mpr ⟨member, isHost⟩

theorem allreduce_mem_kept (isNamed : host ∈ topology.named) :
    Collective.allreduce.ruleOf topology.connections host ∈ topology.kept := by
  rw [kept, rules, generateRules, List.append_assoc, List.take_append]
  refine List.mem_append_left _ ?_
  rw [generateAllreduceRules, ← List.map_take]
  exact List.mem_map_of_mem isNamed

theorem Configures.congr {after : SwitchContext}
    (configures : topology.Configures ctx)
    (same : ctx.SameConfiguration after) : topology.Configures after where
  fanIn := same.fanIn.trans configures.fanIn
  rankToConn := same.rankToConn.trans configures.rankToConn
  rules := by
    rw [same.routingTable]
    exact configures.rules

theorem Configures.rules_eq (configures : topology.Configures ctx) :
    ctx.routingTable.rules = topology.kept.map RuleConfig.toRule := by
  rw [configures.rules, kept, List.map_take]

section Lookup

variable {srcIp dstIp : Word} {primitive : PrimitiveType} {param : Int}

/-- A rule that is found is that of a host with the addresses. -/
theorem Configures.exists_host (configures : topology.Configures ctx)
    {rule : Rule}
    (found : lookupRule ctx.routingTable srcIp dstIp primitive param =
      some rule)
    (samePrimitive : primitive = operation.metadata.1)
    (sameParam : operation = .allreduce ∨ param = operation.metadata.2) :
    operation.Valid topology.worldSize ∧ ∃ host ∈ topology.named,
      srcIp = inetAddr host.peerIp ∧ dstIp = inetAddr host.myIp ∧
        operation.FromConn host ∧
          operation.ruleOf topology.connections host ∈ topology.kept ∧
            rule = (operation.ruleOf topology.connections host).toRule := by
  have inTable := List.mem_of_find?_eq_some found
  have matched : matchRule rule srcIp dstIp primitive param = true := by
    have holds := List.find?_some found
    exact holds
  rw [configures.rules_eq] at inTable
  obtain ⟨config, isKept, rfl⟩ := List.mem_map.mp inTable
  obtain ⟨other, valid, host, isNamed, source, rfl⟩ := mem_kept isKept
  rw [matchRule_iff] at matched
  simp only [RuleConfig.toRule, Collective.ruleOf_srcIp,
    Collective.ruleOf_dstIp, Collective.ruleOf_primitive,
    Collective.ruleOf_primitiveParam] at matched
  obtain ⟨sameSrc, sameDst, otherPrimitive, otherParam⟩ := matched
  have same : other = operation := by
    cases other <;> cases operation <;> simp_all [Collective.metadata]
  subst same
  exact ⟨valid, host, isNamed, sameSrc.symm, sameDst.symm, source, isKept, rfl⟩

/-- A kept rule for the addresses is found, or another one for them. -/
theorem Configures.exists_rule (configures : topology.Configures ctx)
    (sameSrc : srcIp = inetAddr host.peerIp)
    (sameDst : dstIp = inetAddr host.myIp)
    (isKept : operation.ruleOf topology.connections host ∈ topology.kept)
    (samePrimitive : primitive = operation.metadata.1)
    (sameParam : operation = .allreduce ∨ param = operation.metadata.2) :
    ∃ rule, lookupRule ctx.routingTable srcIp dstIp primitive param =
      some rule ∧ rule.direction = .up := by
  have inTable : (operation.ruleOf topology.connections host).toRule ∈
      ctx.routingTable.rules := by
    rw [configures.rules_eq]
    exact List.mem_map_of_mem isKept
  have matched : matchRule
      (operation.ruleOf topology.connections host).toRule srcIp dstIp primitive
        param = true := by
    rw [matchRule_iff]
    simp only [RuleConfig.toRule, Collective.ruleOf_srcIp,
      Collective.ruleOf_dstIp, Collective.ruleOf_primitive,
      Collective.ruleOf_primitiveParam]
    refine ⟨sameSrc.symm, sameDst.symm, samePrimitive.symm, ?_⟩
    refine sameParam.imp (fun same => ?_) Eq.symm
    rw [samePrimitive, same]
    rfl
  cases found : lookupRule ctx.routingTable srcIp dstIp primitive param with
  | none =>
      have absent := lookupRule_eq_none_iff.mp found _ inTable
      rw [matched] at absent
      cases absent
  | some rule =>
      obtain ⟨-, other, -, -, -, -, -, rfl⟩ :=
        configures.exists_host found samePrimitive sameParam
      exact ⟨_, rfl, Collective.ruleOf_direction⟩

end Lookup

theorem HostsFirst.length_hosts_le (hostsFirst : topology.HostsFirst) :
    topology.hosts.length ≤ maxConnectionsNum :=
  length_le_of_ids (List.Sublist.refl _) fun conn isHost =>
    (hostsFirst conn (mem_hosts.mp isHost).1).mp (mem_hosts.mp isHost).2

/-- What a table of ten hosts and nine ranks or more ends with: the rules of
Reduce to rank 8. -/
theorem HostsFirst.kept_eq (hostsFirst : topology.HostsFirst)
    (full : ¬topology.rules.length ≤ maxRules) :
    topology.kept =
      generateAllreduceRules topology.connections ++
        (List.range 9).flatMap fun (root : Nat) =>
          topology.hosts.map
            ((Collective.reduce root).ruleOf topology.connections ·) := by
  have atMostTen : topology.hosts.length ≤ 10 := hostsFirst.length_hosts_le
  have ranks := topology.worldSize_le_hosts
  have square : topology.worldSize * topology.hosts.length ≤
      topology.hosts.length * topology.hosts.length :=
    Nat.mul_le_mul_right _ ranks
  rw [length_rules, maxRules] at full
  have ten : topology.hosts.length = 10 := by
    by_contra less
    have nine : topology.hosts.length * topology.hosts.length ≤ 9 * 9 :=
      Nat.mul_le_mul (by omega) (by omega)
    omega
  rw [ten] at full square
  have nine : 9 ≤ topology.worldSize := by omega
  have reduces : (generateReduceRules topology.connections
      topology.worldSize).take 90 =
        (List.range 9).flatMap fun (root : Nat) =>
          topology.hosts.map
            ((Collective.reduce root).ruleOf topology.connections ·) := by
    have sized : ∀ root ∈ List.range topology.worldSize,
        (topology.hosts.map ((Collective.reduce root).ruleOf
          topology.connections ·)).length = 10 := by
      intro root _
      rw [List.length_map, ten]
    have blocks := take_flatMap sized 9
    rw [List.take_range, Nat.min_eq_left nine] at blocks
    exact blocks
  have allreduces : (generateAllreduceRules topology.connections).length =
      10 := by
    rw [generateAllreduceRules, List.length_map]
    exact ten
  have length : (generateReduceRules topology.connections
      topology.worldSize).length = topology.worldSize * 10 := by
    simp only [generateReduceRules, List.length_flatMap, List.length_map]
    rw [show (topology.connections.filter fun conn => !conn.isSwitch).length =
      10 from ten]
    simp
  rw [kept, rules, generateRules, List.append_assoc, List.take_append,
    allreduces, List.take_of_length_le (by rw [allreduces]; decide),
    show maxRules - 10 = 90 from rfl, List.take_append_of_le_length (by omega),
    reduces]

/-- Under `HostsFirst` an operation has all of its rules or none. -/
theorem HostsFirst.complete (hostsFirst : topology.HostsFirst)
    (valid : operation.Valid topology.worldSize)
    (present : ∃ host,
      operation.ruleOf topology.connections host ∈ topology.kept)
    (isHost : host ∈ topology.hosts) (source : operation.FromConn host) :
    operation.ruleOf topology.connections host ∈ topology.kept := by
  obtain ⟨member, notSwitch⟩ := mem_hosts.mp isHost
  by_cases fits : topology.rules.length ≤ maxRules
  · rw [kept, List.take_of_length_le fits]
    exact mem_rules.mpr
      ⟨operation, valid, host, member, notSwitch, source, rfl⟩
  · obtain ⟨other, inside⟩ := present
    rw [hostsFirst.kept_eq fits, List.mem_append] at inside ⊢
    have others : operation.ruleOf topology.connections other ∈
        (List.range 9).flatMap (fun (root : Nat) => topology.hosts.map
          ((Collective.reduce root).ruleOf topology.connections ·)) →
        ∃ root < 9, operation = .reduce root := by
      intro late
      obtain ⟨root, bound, inBlock⟩ := List.mem_flatMap.mp late
      obtain ⟨third, -, same⟩ := List.mem_map.mp inBlock
      have primitive := congrArg (fun rule : RuleConfig =>
        PrimitiveType.ofInt rule.primitive) same
      have param := congrArg RuleConfig.primitiveParam same
      simp only [Collective.ruleOf_primitive,
        Collective.ruleOf_primitiveParam] at primitive param
      exact ⟨root, List.mem_range.mp bound,
        (Collective.metadata_injective (Prod.ext primitive param)).symm⟩
    rcases inside with early | late
    · obtain ⟨third, -, same⟩ := List.mem_map.mp early
      have primitive := congrArg (fun rule : RuleConfig =>
        PrimitiveType.ofInt rule.primitive) same
      rw [Collective.ruleOf_primitive] at primitive
      cases operation with
      | allreduce => exact Or.inl (List.mem_map_of_mem isHost)
      | reduce root => cases primitive
      | broadcast root => cases primitive
    · obtain ⟨root, bound, rfl⟩ := others late
      exact Or.inr (List.mem_flatMap.mpr
        ⟨root, List.mem_range.mpr bound, List.mem_map_of_mem isHost⟩)

end Topology

@[simp]
theorem PsnState.degree_accumulate (state : PsnState) (opType : PrimitiveType)
    (rootRank : Int) (connId psn : Nat) (data : Nat → Word) (len : Int)
    (packetType : Opcode) :
    (state.accumulate opType rootRank connId psn data len packetType).degree =
      state.degree + 1 := rfl

theorem feed_configuration (ctx : SwitchContext)
    (arrivals : List (Nat × Packet)) :
    ctx.SameConfiguration (feed deliver ctx arrivals).1 := by
  induction arrivals generalizing ctx with
  | nil => exact .refl ctx
  | cons arrival arrivals induction =>
      rw [feed_cons]
      exact (packetHandler_configuration arrival.1 arrival.2).trans
        (induction _)

section Sending

variable {ctx : SwitchContext} {data : Nat → Word} {len : Int}
  {opcode : Opcode}

theorem type_of_mem_sendToEach {conns : List Nat} {frame : Frame}
    (sent : frame ∈ (sendToEach ctx data len opcode conns).2) :
    frame.type = .data := by
  induction conns generalizing ctx with
  | nil => cases sent
  | cons conn conns induction =>
      rw [sendToEach] at sent
      split_ifs at sent
      · rcases List.mem_cons.mp sent with rfl | later
        · rfl
        · exact induction later
      · exact induction sent

theorem dataFrames_sendToEach (conns : List Nat) :
    dataFrames (sendToEach ctx data len opcode conns).2 =
      (sendToEach ctx data len opcode conns).2 :=
  List.filter_eq_self.mpr fun _ sent =>
    decide_eq_true (type_of_mem_sendToEach sent)

theorem map_conn_sendToEach (conns : List Nat) :
    (sendToEach ctx data len opcode conns).2.map Frame.conn =
      conns.filter fun conn => decide (conn < ctx.fanIn) := by
  induction conns generalizing ctx with
  | nil => rfl
  | cons conn conns induction =>
      rw [sendToEach]
      by_cases inRange : conn < ctx.fanIn
      · have rest : (sendToEach (ctx.bumpSendPsn conn) data len opcode
            conns).2.map Frame.conn = _ := induction
        have fanIn : (ctx.bumpSendPsn conn).fanIn = ctx.fanIn := rfl
        rw [if_pos inRange, List.map_cons, rest, fanIn,
          List.filter_cons_of_pos (by simpa using inRange)]
        rfl
      · rw [if_neg inRange, induction,
          List.filter_cons_of_neg (by simpa using inRange)]

theorem map_conn_sendToRoot (rank : Int) :
    (dataFrames (sendToRoot ctx rank data len opcode).2).map Frame.conn =
      if 0 ≤ ctx.rankToConn rank ∧ ctx.rankToConn rank < ctx.fanIn then
        [(ctx.rankToConn rank).toNat]
      else [] := by
  unfold sendToRoot
  dsimp only
  split_ifs
  · simp [dataFrames, sendPacket]
  · rfl

theorem dataFrames_forwardingAck (rule : Rule) (psn : Nat)
    {type : PacketType} (isAck : type = .ack ∨ type = .nak) :
    dataFrames (forwardingAck rule psn type) = [] := by
  refine List.filter_eq_nil_iff.mpr fun frame inside => ?_
  simp only [forwardingAck, forwarding, if_pos isAck, List.mem_map] at inside
  obtain ⟨conn, -, rfl⟩ := inside
  rcases isAck with rfl | rfl <;> simp [sendPacket]

end Sending

namespace SwitchContext

variable {ctx : SwitchContext} {operation : Collective} {conn : Nat}
  {packet : Packet} {rule : Rule}

/-- The connections whose contributions complete a PSN: `aggregate` counts up to
`fan_in`, and a packet of a Broadcast is passed on at once. -/
def awaited (ctx : SwitchContext) (operation : Collective) (conn : Nat) :
    Finset Nat :=
  if operation.aggregates then Finset.range ctx.fanIn else {conn}

/-- The connections with an upstream rule for the operation. -/
def uplinks (ctx : SwitchContext) (operation : Collective) : Set Nat :=
  {conn | ∃ rule ∈ ctx.routingTable.rules, rule.direction = .up ∧
    rule.primitive = operation.metadata.1 ∧
      rule.primitiveParam = operation.metadata.2 ∧ rule.connId = conn}

/-- The packet completes its PSN. -/
def Completes (ctx : SwitchContext) (operation : Collective)
    (packet : Packet) : Prop :=
  operation.aggregates = true →
    (ctx.psnStates (idx packet.psn)).degree + 1 = ctx.fanIn

/-- One contribution of every connection of `held` is in the slot: the next one
completes it exactly when nothing else is awaited. -/
theorem completes_iff {held : Finset Nat}
    (aggregates : operation.aggregates = true)
    (degree : (ctx.psnStates (idx packet.psn)).degree = held.card)
    (inside : ∀ other ∈ held, other < ctx.fanIn) (bound : conn < ctx.fanIn)
    (fresh : conn ∉ held) :
    ctx.Completes operation packet ↔
      insert conn held = ctx.awaited operation conn := by
  have subset : insert conn held ⊆ Finset.range ctx.fanIn := by
    intro other member
    rcases Finset.mem_insert.mp member with rfl | old
    · exact Finset.mem_range.mpr bound
    · exact Finset.mem_range.mpr (inside other old)
  simp only [Completes, awaited, aggregates, true_implies, if_true, degree,
    ← Finset.card_insert_of_notMem fresh]
  constructor
  · intro full
    refine Finset.eq_of_subset_of_card_le subset ?_
    rw [Finset.card_range, full]
  · intro same
    rw [same, Finset.card_range]

/-- Where a completed PSN goes to. -/
def resultTargets (ctx : SwitchContext) (rule : Rule) (conn : Nat) :
    Collective → List Nat
  | .allreduce => rule.outConns.filter fun target => decide (target < ctx.fanIn)
  | .reduce root =>
      if 0 ≤ ctx.rankToConn root ∧ ctx.rankToConn root < ctx.fanIn then
        [(ctx.rankToConn root).toNat]
      else []
  | .broadcast _ => (List.range ctx.fanIn).filter fun target => target ≠ conn

/-- An upstream data packet that `packet_handler` accepts for an operation. -/
structure Accepts (ctx : SwitchContext) (conn : Nat) (packet : Packet)
    (operation : Collective) (rule : Rule) : Prop where
  isSend : packet.isSend = true
  notControl : packet.isControlMessage = false
  primitive : (ctx.lookupKey packet).1 = operation.metadata.1
  param : operation = .allreduce ∨
    (ctx.lookupKey packet).2 = operation.metadata.2
  found : lookupRule ctx.routingTable packet.srcIp packet.dstIp
    (ctx.lookupKey packet).1 (ctx.lookupKey packet).2 = some rule
  up : rule.direction = .up
  expected : packet.psn = ctx.aggEpsn conn

theorem storeMetadata_operation (ctx : SwitchContext) (packet : Packet) :
    ((ctx.storeMetadata packet).operationType,
      (ctx.storeMetadata packet).rootRank) = ctx.lookupKey packet := by
  unfold storeMetadata lookupKey
  split_ifs <;> rfl

theorem storeMetadata_psnStates (ctx : SwitchContext) (packet : Packet) :
    (ctx.storeMetadata packet).psnStates = ctx.psnStates := by
  unfold storeMetadata
  split_ifs <;> rfl

/-- What is sent along with the acknowledgement. -/
theorem Accepts.dataFrames_eq
    (accepts : ctx.Accepts conn packet operation rule) :
    dataFrames (packetHandler ctx conn packet).2 =
      dataFrames (aggregate ((ctx.storeMetadata packet).bumpAggEpsn conn) rule
        conn packet.psn packet.data packet.dataLen packet.opcode).2 := by
  have stored := storeMetadata_configuration ctx packet
  have found := accepts.found
  rw [← stored.routingTable] at found
  have notDown : rule.direction ≠ .down := by
    rw [accepts.up]
    exact nofun
  have expected : packet.psn = (ctx.storeMetadata packet).aggEpsn conn := by
    rw [storeMetadata_aggEpsn]
    exact accepts.expected
  simp only [packetHandler, found, accepts.notControl, Bool.false_eq_true,
    if_false, handleByRule, accepts.isSend, if_true, notDown,
    handleUpstreamData]
  rw [if_neg (by omega), if_neg (by omega)]
  simp only [dataFrames, List.filter_append]
  rw [show List.filter _ (forwardingAck rule packet.psn .ack) = [] from
    dataFrames_forwardingAck rule packet.psn (Or.inl rfl), List.nil_append]

/-- The context `aggregate` sees. -/
structure Ready (ctx ready : SwitchContext) (operation : Collective) : Prop where
  configuration : ctx.SameConfiguration ready
  psnStates : ready.psnStates = ctx.psnStates
  operationType : ready.operationType = operation.metadata.1
  rootRank : operation = .allreduce ∨ ready.rootRank = operation.metadata.2

theorem Accepts.ready (accepts : ctx.Accepts conn packet operation rule) :
    ctx.Ready ((ctx.storeMetadata packet).bumpAggEpsn conn) operation := by
  have stored := storeMetadata_configuration ctx packet
  have key := storeMetadata_operation ctx packet
  refine ⟨stored.trans ⟨rfl, rfl, rfl, rfl⟩, storeMetadata_psnStates ctx packet,
    ?_, ?_⟩
  · exact (congrArg Prod.fst key).trans accepts.primitive
  · exact accepts.param.imp_right (congrArg Prod.snd key).trans

/-- A completed PSN is sent to the targets of its operation. -/
theorem Ready.targets_eq {ready : SwitchContext}
    (isReady : ctx.Ready ready operation) (isRoot : ctx.isRoot = true)
    (completes : ctx.Completes operation packet) :
    (dataFrames (aggregate ready rule conn packet.psn packet.data packet.dataLen
        packet.opcode).2).map Frame.conn =
      ctx.resultTargets rule conn operation := by
  have fanIn := isReady.configuration.fanIn
  have root := isReady.configuration.isRoot.trans isRoot
  have degree : operation.aggregates = true →
      (ready.psnStates (idx packet.psn)).degree + 1 = ready.fanIn := by
    rw [isReady.psnStates, fanIn]
    exact completes
  cases operation with
  | allreduce =>
      have operationType : ready.operationType = .allreduce :=
        isReady.operationType
      simp only [aggregate, operationType, reduceCtorEq, if_false,
        PsnState.degree_accumulate, degree rfl, if_true]
      simp only [completeAggregation, SwitchContext.setPsnState, root, if_true,
        cacheAndBroadcast, dataFrames_sendToEach, map_conn_sendToEach,
        resultTargets]
      rw [← fanIn]
      rfl
  | reduce rank =>
      have operationType : ready.operationType = .reduce :=
        isReady.operationType
      have rootRank : ready.rootRank = rank :=
        isReady.rootRank.resolve_left fun same => by cases same
      simp only [aggregate, operationType, reduceCtorEq, if_false,
        PsnState.degree_accumulate, degree rfl, if_true]
      simp only [completeAggregation, SwitchContext.setPsnState, root, if_true,
        rootRank, map_conn_sendToRoot, isReady.configuration.rankToConn, fanIn,
        resultTargets]
  | broadcast rank =>
      have operationType : ready.operationType = .broadcast :=
        isReady.operationType
      simp only [aggregate, operationType, if_true, handleBroadcast,
        dataFrames_sendToEach, map_conn_sendToEach, resultTargets, fanIn]
      refine List.filter_eq_self.mpr fun target inside => ?_
      exact decide_eq_true
        (List.mem_range.mp (List.mem_of_mem_filter inside))

end SwitchContext

end IncEmulation
