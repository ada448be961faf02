import IncEmulation.Collective

/-!
# What one arrival does to a deployed switch

One lemma for each way `packet_handler` can treat a packet of a host: a control
message, an old or a premature data packet, a packet that the table drops, a
broadcast packet, a contribution that leaves its slot incomplete, a contribution
that completes it, and an acknowledgement.  Every later proof about the switch
goes through these and never unfolds the handler.
-/

namespace IncEmulation

/-- The packet carries the addresses of the host behind `conn`. -/
structure Packet.From (addressing : Addressing) (conn : Nat)
    (packet : Packet) : Prop where
  srcIp : packet.srcIp = addressing.srcIp conn
  dstIp : packet.dstIp = addressing.dstIp conn

/-- A control message announcing `operation`. -/
structure Packet.Announces (packet : Packet) (operation : Collective) :
    Prop where
  control : packet.isControlMessage = true
  announced : packet.announced = operation.metadata

/-- A data message as the hosts send it: a SEND without immediate data. -/
structure Packet.Plain (packet : Packet) : Prop where
  isSend : packet.isSend = true
  hasImmData : packet.hasImmData = false

theorem Packet.Plain.not_control {packet : Packet} (plain : packet.Plain) :
    packet.isControlMessage = false := by
  by_contra control
  simp only [Bool.not_eq_false] at control
  have immediate := Packet.hasImmData_of_isControlMessage control
  rw [plain.hasImmData] at immediate
  cases immediate

theorem Packet.hasImmData_of_ack {packet : Packet}
    (opcode : packet.opcode = rdmaOpcodeAck) : packet.hasImmData = false := by
  simp [Packet.hasImmData, opcode, rdmaOpcodeAck, rdmaOpcodeSendOnlyWithImm,
    rdmaOpcodeSendLastWithImm]

/-- A slot that holds no contribution. -/
structure PsnState.Idle (state : PsnState) : Prop where
  degree : state.degree = 0
  arrival : ∀ conn, state.arrival conn = false

theorem PsnState.clear_idle (state : PsnState) : state.clear.Idle where
  degree := rfl
  arrival _ := rfl

def acknowledgement (conn psn : Nat) : Frame where
  conn := conn
  type := .ack
  data := []
  psn := psn
  packetType := rdmaOpcodeAck

def refusal (conn psn : Nat) : Frame where
  conn := conn
  type := .nak
  data := []
  psn := psn
  packetType := rdmaOpcodeAck

namespace SwitchContext

/-- The operation whose metadata the switch holds. -/
def InForce (ctx : SwitchContext) (operation : Collective) : Prop :=
  (ctx.operationType, ctx.rootRank) = operation.metadata

/-- The fields only a configuration writes. -/
structure SameConfiguration (before after : SwitchContext) : Prop where
  isRoot : after.isRoot = before.isRoot
  fanIn : after.fanIn = before.fanIn
  routingTable : after.routingTable = before.routingTable
  rankToConn : after.rankToConn = before.rankToConn

/-- Every target's send PSN is used once. -/
def afterSending (ctx : SwitchContext) (targets : List Nat) : SwitchContext :=
  { ctx with
    sendPsn := fun conn =>
      ctx.sendPsn conn + if conn ∈ targets then 1 else 0 }

/-- The frames that carry one result to every target. -/
def resultFrames (ctx : SwitchContext) (data : Nat → Word) (len : Int)
    (opcode : Opcode) (targets : List Nat) : List Frame :=
  targets.map fun conn =>
    sendPacket conn .data data len (ctx.sendPsn conn) opcode

/-- The context after a control message. -/
def afterControl (ctx : SwitchContext) (operation : Collective)
    (conn psn : Nat) : SwitchContext :=
  { ctx.bumpAggEpsn conn with
    operationType := operation.metadata.1
    rootRank := operation.metadata.2
    ctrlPsn := psn }

/-- The slot of a packet once its contribution is in. -/
def contribution (ctx : SwitchContext) (operation : Collective) (conn : Nat)
    (packet : Packet) : PsnState :=
  (ctx.psnStates (idx packet.psn)).accumulate operation.metadata.1
    operation.metadata.2 conn packet.psn packet.data packet.dataLen
    packet.opcode

/-- The context after a contribution that leaves its slot incomplete. -/
def afterContribution (ctx : SwitchContext) (operation : Collective)
    (conn : Nat) (packet : Packet) : SwitchContext :=
  (ctx.bumpAggEpsn conn).setPsnState (idx packet.psn)
    (ctx.contribution operation conn packet)

/-- What a contribution that completes its slot leaves behind. -/
structure Completed (before after : SwitchContext) (conn slot : Nat)
    (targets : List Nat) : Prop where
  configuration : before.SameConfiguration after
  aggEpsn : after.aggEpsn =
    Function.update before.aggEpsn conn (before.aggEpsn conn + 1)
  sendPsn : after.sendPsn = (before.afterSending targets).sendPsn
  operationType : after.operationType = before.operationType
  rootRank : after.rootRank = before.rootRank
  idle : (after.psnStates slot).Idle
  others : ∀ index, index ≠ slot →
    after.psnStates index = before.psnStates index

/-- What an acknowledgement of a host leaves alone. -/
structure Acknowledged (before after : SwitchContext) : Prop where
  configuration : before.SameConfiguration after
  aggEpsn : after.aggEpsn = before.aggEpsn
  sendPsn : after.sendPsn = before.sendPsn
  operationType : after.operationType = before.operationType
  rootRank : after.rootRank = before.rootRank
  degree : ∀ index,
    (after.psnStates index).degree = (before.psnStates index).degree
  arrival : ∀ index,
    (after.psnStates index).arrival = (before.psnStates index).arrival
  aggBuffer : ∀ index,
    (after.psnStates index).aggBuffer = (before.psnStates index).aggBuffer

theorem SameConfiguration.refl (ctx : SwitchContext) :
    ctx.SameConfiguration ctx := ⟨rfl, rfl, rfl, rfl⟩

end SwitchContext

theorem Routed.congr {addressing : Addressing} {hosts : Nat}
    {before after : SwitchContext} (routed : Routed addressing hosts before)
    (same : before.SameConfiguration after) :
    Routed addressing hosts after where
  fits := routed.fits
  fanIn := same.fanIn.trans routed.fanIn
  rankToConn := by
    rw [same.rankToConn]
    exact routed.rankToConn
  allreduce := by
    rw [same.routingTable]
    exact routed.allreduce
  reduce := by
    rw [same.routingTable]
    exact routed.reduce
  broadcast := by
    rw [same.routingTable]
    exact routed.broadcast
  broadcast_other := by
    rw [same.routingTable]
    exact routed.broadcast_other

theorem Deployed.congr {addressing : Addressing} {hosts : Nat}
    {before after : SwitchContext} (deployed : Deployed addressing hosts before)
    (same : before.SameConfiguration after) :
    Deployed addressing hosts after where
  toRouted := deployed.toRouted.congr same
  isRoot := same.isRoot.trans deployed.isRoot

/-- Every admissible operation finds an uplink of its connection. -/
theorem Routed.lookupRule {addressing : Addressing} {hosts conn : Nat}
    {ctx : SwitchContext} (routed : Routed addressing hosts ctx)
    (bound : conn < hosts) {operation : Collective}
    (admissible : operation.Admissible hosts conn) :
    ∃ rule, IncEmulation.lookupRule ctx.routingTable (addressing.srcIp conn)
        (addressing.dstIp conn) operation.metadata.1 operation.metadata.2 =
          some rule ∧
      rule.Uplink conn ∧
        (operation = .allreduce → rule.outConns = List.range hosts) := by
  cases operation with
  | allreduce =>
      obtain ⟨rule, found, uplink, outConns⟩ :=
        routed.allreduce conn bound (-1)
      exact ⟨rule, found, uplink, fun _ => outConns⟩
  | reduce root =>
      obtain ⟨rule, found, uplink⟩ :=
        routed.reduce conn bound root admissible
      exact ⟨rule, found, uplink, fun same => nomatch same⟩
  | broadcast root =>
      have rootIsConn : root = conn := admissible
      subst rootIsConn
      obtain ⟨rule, found, uplink⟩ := routed.broadcast root bound
      exact ⟨rule, found, uplink, fun same => nomatch same⟩

section Forwarding

theorem forwardingAck_ack {rule : Rule} {conn : Nat} (uplink : rule.Uplink conn)
    (psn : Nat) :
    forwardingAck rule psn .ack = [acknowledgement conn psn] := by
  simp [forwardingAck, forwarding, uplink.ackConn, sendPacket, acknowledgement]

theorem forwardingAck_nak {rule : Rule} {conn : Nat} (uplink : rule.Uplink conn)
    (psn : Nat) :
    forwardingAck rule psn .nak = [refusal conn psn] := by
  simp [forwardingAck, forwarding, uplink.ackConn, sendPacket, refusal]

/-- The sending loop over distinct connections of the switch. -/
theorem sendToEach_eq {ctx : SwitchContext} {conns : List Nat}
    (bound : ∀ conn ∈ conns, conn < ctx.fanIn) (distinct : conns.Nodup)
    (data : Nat → Word) (len : Int) (opcode : Opcode) :
    sendToEach ctx data len opcode conns =
      (ctx.afterSending conns, ctx.resultFrames data len opcode conns) := by
  induction conns generalizing ctx with
  | nil => simp [sendToEach, SwitchContext.afterSending,
      SwitchContext.resultFrames]
  | cons conn conns induction =>
      have inRange : conn < ctx.fanIn := bound conn (by simp)
      have fresh : conn ∉ conns := (List.nodup_cons.mp distinct).1
      have rest := @induction (ctx.bumpSendPsn conn)
        (fun other member => bound other (by simp [member]))
        (List.nodup_cons.mp distinct).2
      rw [sendToEach, if_pos inRange, rest]
      refine Prod.ext ?_ ?_
      · simp only [SwitchContext.afterSending, SwitchContext.bumpSendPsn,
          List.mem_cons]
        congr 1
        funext other
        by_cases same : other = conn
        · subst same
          simp [fresh]
        · simp [same]
      · simp only [SwitchContext.resultFrames, List.map_cons]
        congr 1
        apply List.map_congr_left
        intro other member
        have different : other ≠ conn := fun same => fresh (same ▸ member)
        simp [Function.update_of_ne different]

theorem sendPacket_copyWords (conn : Nat) (type : PacketType)
    (target source : Nat → Word) (len : Int) (psn : Nat) (opcode : Opcode) :
    sendPacket conn type (copyWords target source len) len psn opcode =
      sendPacket conn type source len psn opcode := by
  simp only [sendPacket, Frame.mk.injEq, true_and, and_true]
  apply List.map_congr_left
  intro index member
  have bound : (index : Int) < len := by
    have inRange := List.mem_range.mp member
    omega
  simp [copyWords, bound]

theorem handleBroadcast_eq (ctx : SwitchContext) (conn : Nat)
    (data : Nat → Word) (len : Int) (opcode : Opcode) :
    handleBroadcast ctx conn data len opcode =
      (ctx.afterSending ((Collective.broadcast conn).targets ctx.fanIn),
        ctx.resultFrames data len (stripImmediateOpcode opcode)
          ((Collective.broadcast conn).targets ctx.fanIn)) := by
  rw [handleBroadcast, Collective.targets]
  apply sendToEach_eq
  · intro other member
    exact List.mem_range.mp (List.mem_of_mem_filter member)
  · exact List.nodup_range.filter _

end Forwarding

section Arrival

variable {addressing : Addressing} {hosts conn : Nat} {ctx : SwitchContext}
  {packet : Packet} {operation : Collective}

theorem packetHandler_control (routed : Routed addressing hosts ctx)
    (bound : conn < hosts) (origin : packet.From addressing conn)
    (admissible : operation.Admissible hosts conn)
    (announces : packet.Announces operation) :
    packetHandler ctx conn packet =
      (ctx.afterControl operation conn packet.psn,
        [acknowledgement conn packet.psn]) := by
  obtain ⟨rule, found, uplink, -⟩ := routed.lookupRule bound admissible
  have immediate :=
    Packet.hasImmData_of_isControlMessage announces.control
  simp only [packetHandler, SwitchContext.lookupKey,
    SwitchContext.storeMetadata, immediate, if_true, announces.announced,
    announces.control, origin.srcIp, origin.dstIp, found,
    handleControlMessage, forwardingAck_ack uplink]
  rfl

theorem packetHandler_plain (routed : Routed addressing hosts ctx)
    (bound : conn < hosts) (origin : packet.From addressing conn)
    (admissible : operation.Admissible hosts conn)
    (inForce : ctx.InForce operation) (plain : packet.Plain) :
    ∃ rule, rule.Uplink conn ∧
      (operation = .allreduce → rule.outConns = List.range hosts) ∧
      packetHandler ctx conn packet =
        handleUpstreamData ctx rule conn packet := by
  obtain ⟨rule, found, uplink, outConns⟩ :=
    routed.lookupRule bound admissible
  have key : (ctx.operationType, ctx.rootRank) = operation.metadata := inForce
  have up : rule.direction ≠ .down := by simp [uplink.direction]
  refine ⟨rule, uplink, outConns, ?_⟩
  simp [packetHandler, SwitchContext.lookupKey, SwitchContext.storeMetadata,
    plain.hasImmData, plain.not_control, plain.isSend, key, origin.srcIp,
    origin.dstIp, found, handleByRule, up]

theorem packetHandler_stale (routed : Routed addressing hosts ctx)
    (bound : conn < hosts) (origin : packet.From addressing conn)
    (admissible : operation.Admissible hosts conn)
    (inForce : ctx.InForce operation) (plain : packet.Plain)
    (stale : packet.psn < ctx.aggEpsn conn) :
    packetHandler ctx conn packet =
      (ctx, [acknowledgement conn (ctx.aggEpsn conn - 1)]) := by
  obtain ⟨rule, uplink, -, handled⟩ :=
    packetHandler_plain routed bound origin admissible inForce plain
  rw [handled, handleUpstreamData, if_pos stale, forwardingAck_ack uplink]

theorem packetHandler_ahead (routed : Routed addressing hosts ctx)
    (bound : conn < hosts) (origin : packet.From addressing conn)
    (admissible : operation.Admissible hosts conn)
    (inForce : ctx.InForce operation) (plain : packet.Plain)
    (ahead : ctx.aggEpsn conn < packet.psn) :
    packetHandler ctx conn packet =
      (ctx, [refusal conn (ctx.aggEpsn conn)]) := by
  obtain ⟨rule, uplink, -, handled⟩ :=
    packetHandler_plain routed bound origin admissible inForce plain
  rw [handled, handleUpstreamData, if_neg (by omega), if_pos ahead,
    forwardingAck_nak uplink]

theorem packetHandler_dropped (routed : Routed addressing hosts ctx)
    (bound : conn < hosts) (origin : packet.From addressing conn)
    {root : Nat} (other : root ≠ conn)
    (inForce : ctx.InForce (.broadcast root)) (plain : packet.Plain) :
    packetHandler ctx conn packet = (ctx, []) := by
  have key : (ctx.operationType, ctx.rootRank) = (.broadcast, (root : Int)) :=
    inForce
  have absent := routed.broadcast_other conn bound root
    (by exact_mod_cast other)
  simp [packetHandler, SwitchContext.lookupKey, SwitchContext.storeMetadata,
    plain.hasImmData, key, origin.srcIp, origin.dstIp, absent]

theorem packetHandler_broadcast (routed : Routed addressing hosts ctx)
    (bound : conn < hosts) (origin : packet.From addressing conn)
    (inForce : ctx.InForce (.broadcast conn)) (plain : packet.Plain)
    (expected : packet.psn = ctx.aggEpsn conn) :
    packetHandler ctx conn packet =
      ((ctx.bumpAggEpsn conn).afterSending
          ((Collective.broadcast conn).targets hosts),
        acknowledgement conn packet.psn ::
          ctx.resultFrames packet.data packet.dataLen
            (stripImmediateOpcode packet.opcode)
            ((Collective.broadcast conn).targets hosts)) := by
  obtain ⟨rule, uplink, -, handled⟩ :=
    packetHandler_plain routed bound origin
      (show (Collective.broadcast conn).Admissible hosts conn from rfl)
      inForce plain
  have primitive : ctx.operationType = .broadcast :=
    congrArg Prod.fst inForce
  have fanIn : (ctx.bumpAggEpsn conn).fanIn = hosts := routed.fanIn
  have current : (ctx.bumpAggEpsn conn).operationType = .broadcast := primitive
  rw [handled, handleUpstreamData, if_neg (by omega), if_neg (by omega)]
  simp only [aggregate, current, if_true, handleBroadcast_eq, fanIn,
    forwardingAck_ack uplink]
  rfl

/-- An aggregating operation reaches the slot of the packet's PSN. -/
theorem packetHandler_aggregate (routed : Routed addressing hosts ctx)
    (bound : conn < hosts) (origin : packet.From addressing conn)
    (admissible : operation.Admissible hosts conn)
    (aggregates : operation.aggregates = true)
    (inForce : ctx.InForce operation) (plain : packet.Plain)
    (expected : packet.psn = ctx.aggEpsn conn) :
    ∃ rule, (operation = .allreduce → rule.outConns = List.range hosts) ∧
      packetHandler ctx conn packet =
        (let state := ctx.contribution operation conn packet
          let accumulated := ctx.afterContribution operation conn packet
          let sent :=
            if state.degree = hosts then
              completeAggregation accumulated rule operation.metadata.1
                operation.metadata.2 packet.psn state.aggBuffer.buffer
                packet.dataLen packet.opcode
            else (accumulated, [])
          (sent.1, acknowledgement conn packet.psn :: sent.2)) := by
  obtain ⟨rule, uplink, outConns, handled⟩ :=
    packetHandler_plain routed bound origin admissible inForce plain
  have primitive : ctx.operationType = operation.metadata.1 :=
    congrArg Prod.fst inForce
  have param : ctx.rootRank = operation.metadata.2 :=
    congrArg Prod.snd inForce
  have notBroadcast : operation.metadata.1 ≠ .broadcast := by
    cases operation <;> simp_all [Collective.metadata, Collective.aggregates]
  refine ⟨rule, outConns, ?_⟩
  rw [handled, handleUpstreamData, if_neg (by omega), if_neg (by omega)]
  simp only [aggregate, SwitchContext.bumpAggEpsn, primitive, param,
    notBroadcast, if_false, routed.fanIn, forwardingAck_ack uplink,
    SwitchContext.contribution, SwitchContext.afterContribution]
  rfl

theorem packetHandler_incomplete (routed : Routed addressing hosts ctx)
    (bound : conn < hosts) (origin : packet.From addressing conn)
    (admissible : operation.Admissible hosts conn)
    (aggregates : operation.aggregates = true)
    (inForce : ctx.InForce operation) (plain : packet.Plain)
    (expected : packet.psn = ctx.aggEpsn conn)
    (incomplete : (ctx.psnStates (idx packet.psn)).degree + 1 ≠ hosts) :
    packetHandler ctx conn packet =
      (ctx.afterContribution operation conn packet,
        [acknowledgement conn packet.psn]) := by
  obtain ⟨rule, -, handled⟩ := packetHandler_aggregate routed bound origin
    admissible aggregates inForce plain expected
  have degree : (ctx.contribution operation conn packet).degree ≠ hosts :=
    incomplete
  rw [handled]
  simp only [degree, if_false]

theorem sendToRoot_eq {root : Nat} {opcode : Opcode} {data : Nat → Word}
    {len : Int} (routed : Routed addressing hosts ctx)
    (bound : root < hosts) :
    sendToRoot ctx root data len opcode =
      (ctx.afterSending [root],
        ctx.resultFrames data len (stripImmediateOpcode opcode) [root]) := by
  have inRange : (0 : Int) ≤ root ∧ (root : Int) < hosts := by omega
  simp only [sendToRoot, routed.rankToConn root bound, routed.fanIn,
    inRange, and_self, if_true, Int.toNat_natCast, SwitchContext.afterSending,
    SwitchContext.resultFrames, SwitchContext.bumpSendPsn, List.mem_singleton,
    List.map_cons, List.map_nil]
  refine Prod.ext ?_ rfl
  simp only [SwitchContext.mk.injEq, true_and, and_true]
  funext other
  by_cases same : other = root
  · subst same
    simp
  · simp [same]

theorem cacheAndBroadcast_eq {rule : Rule} {psn : Nat} {data : Nat → Word}
    {len : Int} {opcode : Opcode} (fanIn : ctx.fanIn = hosts)
    (outConns : rule.outConns = List.range hosts) :
    cacheAndBroadcast ctx rule psn data len opcode =
      ((ctx.cacheDownstream psn data len opcode).afterSending
          (List.range hosts),
        ctx.resultFrames data len (stripImmediateOpcode opcode)
          (List.range hosts)) := by
  have inside : ∀ other ∈ List.range hosts,
      other < (ctx.cacheDownstream psn data len opcode).fanIn := by
    intro other member
    have inRange := List.mem_range.mp member
    exact fanIn ▸ inRange
  have sending := sendToEach_eq inside List.nodup_range
    ((ctx.cacheDownstream psn data len opcode).psnStates
      (idx psn)).bcastBuffer.buffer
    len (stripImmediateOpcode opcode)
  rw [cacheAndBroadcast, outConns]
  simp only [sending]
  refine Prod.ext rfl ?_
  simp only [SwitchContext.resultFrames, SwitchContext.cacheDownstream,
    SwitchContext.setPsnState_psnStates, Function.update_self,
    sendPacket_copyWords]
  rfl

/-- Any context that only differs in what a completion may change. -/
theorem completed_of_allreduce {state : PsnState} {data : Nat → Word}
    {len : Int} {opcode : Opcode} {targets : List Nat} :
    ctx.Completed
      (((((ctx.bumpAggEpsn conn).setPsnState (idx packet.psn)
        state).cacheDownstream packet.psn data len opcode).afterSending
          targets).clearSlot (idx packet.psn))
      conn (idx packet.psn) targets where
  configuration := ⟨rfl, rfl, rfl, rfl⟩
  aggEpsn := rfl
  sendPsn := rfl
  operationType := rfl
  rootRank := rfl
  idle := by
    simp only [SwitchContext.clearSlot, SwitchContext.setPsnState_psnStates,
      Function.update_self]
    exact PsnState.clear_idle _
  others := by
    intro index different
    simp [SwitchContext.clearSlot, SwitchContext.afterSending,
      SwitchContext.cacheDownstream, Function.update_of_ne different,
      SwitchContext.bumpAggEpsn]

theorem completed_of_reduce {state : PsnState} {targets : List Nat} :
    ctx.Completed
      ((((ctx.bumpAggEpsn conn).setPsnState (idx packet.psn)
        state).afterSending targets).clearSlot (idx packet.psn))
      conn (idx packet.psn) targets where
  configuration := ⟨rfl, rfl, rfl, rfl⟩
  aggEpsn := rfl
  sendPsn := rfl
  operationType := rfl
  rootRank := rfl
  idle := by
    simp only [SwitchContext.clearSlot, SwitchContext.setPsnState_psnStates,
      Function.update_self]
    exact PsnState.clear_idle _
  others := by
    intro index different
    simp [SwitchContext.clearSlot, SwitchContext.afterSending,
      Function.update_of_ne different, SwitchContext.bumpAggEpsn]

/-- A contribution that fills its slot sends the result and empties it. -/
theorem packetHandler_complete (deployed : Deployed addressing hosts ctx)
    (bound : conn < hosts) (origin : packet.From addressing conn)
    (admissible : operation.Admissible hosts conn)
    (aggregates : operation.aggregates = true)
    (inForce : ctx.InForce operation) (plain : packet.Plain)
    (expected : packet.psn = ctx.aggEpsn conn)
    (complete : (ctx.psnStates (idx packet.psn)).degree + 1 = hosts) :
    ctx.Completed (packetHandler ctx conn packet).1 conn (idx packet.psn)
        (operation.targets hosts) ∧
      (packetHandler ctx conn packet).2 =
        acknowledgement conn packet.psn ::
          ctx.resultFrames
            (ctx.contribution operation conn packet).aggBuffer.buffer
            packet.dataLen (stripImmediateOpcode packet.opcode)
            (operation.targets hosts) := by
  obtain ⟨rule, outConns, handled⟩ := packetHandler_aggregate deployed.toRouted
    bound origin admissible aggregates inForce plain expected
  have degree : (ctx.contribution operation conn packet).degree = hosts :=
    complete
  have isRoot :
      (ctx.afterContribution operation conn packet).isRoot = true :=
    deployed.isRoot
  simp only [degree, if_true, completeAggregation, isRoot] at handled
  rw [handled]
  cases operation with
  | allreduce =>
      simp only [Collective.metadata,
        cacheAndBroadcast_eq
          (show (ctx.afterContribution .allreduce conn packet).fanIn = hosts
            from deployed.fanIn)
          (outConns rfl)]
      exact ⟨completed_of_allreduce, rfl⟩
  | reduce root =>
      have rootBound : root < hosts := admissible
      have routedAfter : Routed addressing hosts
          (ctx.afterContribution (.reduce root) conn packet) :=
        deployed.toRouted.congr ⟨rfl, rfl, rfl, rfl⟩
      simp only [Collective.metadata, sendToRoot_eq routedAfter rootBound]
      exact ⟨completed_of_reduce, rfl⟩
  | broadcast root => cases aggregates

/-- An acknowledgement that the table lets in reaches `handle_upstream_ack`. -/
theorem packetHandler_ack (routed : Routed addressing hosts ctx)
    (bound : conn < hosts) (origin : packet.From addressing conn)
    (opcode : packet.opcode = rdmaOpcodeAck) (inForce : ctx.InForce operation)
    (admissible : operation.Admissible hosts conn) :
    packetHandler ctx conn packet =
      (handleUpstreamAck ctx conn packet.psn packet.isNak, []) := by
  have key : (ctx.operationType, ctx.rootRank) = operation.metadata := inForce
  have noImmediate := Packet.hasImmData_of_ack opcode
  have notControl : packet.isControlMessage = false := by
    simp [Packet.isControlMessage, opcode, rdmaOpcodeAck,
      rdmaOpcodeSendOnlyWithImm]
  have notSend : packet.isSend = false := by
    simp [Packet.isSend, opcode, rdmaOpcodeAck, rdmaOpcodeSendOnlyWithImm,
      rdmaOpcodeSendLastWithImm, rdmaOpcodeSendOnly, rdmaOpcodeSendFirst,
      rdmaOpcodeSendMiddle, rdmaOpcodeSendLast]
  obtain ⟨rule, found, uplink, -⟩ := routed.lookupRule bound admissible
  have up : rule.direction ≠ .down := by simp [uplink.direction]
  simp [packetHandler, SwitchContext.lookupKey, SwitchContext.storeMetadata,
    noImmediate, notControl, notSend, key, origin.srcIp, origin.dstIp, found,
    handleByRule, opcode, up]

/-- An acknowledgement touches none of the upward path. -/
theorem packetHandler_acknowledgement
    (routed : Routed addressing hosts ctx) (bound : conn < hosts)
    (origin : packet.From addressing conn)
    (opcode : packet.opcode = rdmaOpcodeAck)
    (inForce : ctx.InForce operation)
    (admissible : ∀ root, operation = .reduce root → root < hosts) :
    ctx.Acknowledged (packetHandler ctx conn packet).1 ∧
      (packetHandler ctx conn packet).2 = [] := by
  have key : (ctx.operationType, ctx.rootRank) = operation.metadata := inForce
  have noImmediate := Packet.hasImmData_of_ack opcode
  have unchanged : ctx.Acknowledged ctx :=
    ⟨.refl ctx, rfl, rfl, rfl, rfl, fun _ => rfl, fun _ => rfl, fun _ => rfl⟩
  by_cases dropped : ∃ root, operation = .broadcast root ∧ root ≠ conn
  · obtain ⟨root, rfl, other⟩ := dropped
    have absent := routed.broadcast_other conn bound root
      (by exact_mod_cast other)
    have handled : packetHandler ctx conn packet = (ctx, []) := by
      simp [packetHandler, SwitchContext.lookupKey,
        SwitchContext.storeMetadata, noImmediate, key, origin.srcIp,
        origin.dstIp, Collective.metadata, absent]
    rw [handled]
    exact ⟨unchanged, rfl⟩
  · have admitted : operation.Admissible hosts conn := by
      cases operation with
      | allreduce => trivial
      | reduce root => exact admissible root rfl
      | broadcast root =>
          by_contra other
          exact dropped ⟨root, rfl, other⟩
    rw [packetHandler_ack routed bound origin opcode inForce admitted]
    refine ⟨?_, rfl⟩
    unfold handleUpstreamAck
    by_cases nak : packet.isNak = true
    · simpa [nak] using unchanged
    · by_cases newer : ctx.latestAck conn < packet.psn
      · simp only [nak, newer, if_true, Bool.false_eq_true, if_false]
        refine ⟨⟨rfl, rfl, rfl, rfl⟩, rfl, rfl, rfl, rfl, ?_, ?_, ?_⟩ <;>
        · intro index
          by_cases slot : index = idx packet.psn
          · subst slot
            simp only [SwitchContext.setPsnState_psnStates,
              Function.update_self, PsnState.acknowledge]
            split_ifs <;> rfl
          · simp [Function.update_of_ne slot]
      · simpa [nak, newer] using unchanged

end Arrival

end IncEmulation
