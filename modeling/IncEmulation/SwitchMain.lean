import IncEmulation.SwitchContext

/-!
# The packet handler of the termination switch (`switch_main.c`)

Every function returns the context it leaves and the frames it hands to
`send_packet`, in order.  The two halves of `aggregate` under and after the slot
lock, and the three tails of `packet_handler`, are definitions of their own.
-/

namespace IncEmulation

def idx (psn : Nat) : Nat := psn % switchArrayLength

def stripImmediateOpcode (opcode : Opcode) : Opcode :=
  if opcode = rdmaOpcodeSendOnlyWithImm then rdmaOpcodeSendOnly
  else if opcode = rdmaOpcodeSendLastWithImm then rdmaOpcodeSendLast
  else opcode

/-- `memcpy(target, source, len * sizeof(uint32_t))`. -/
def copyWords (target source : Nat → Word) (len : Int) : Nat → Word :=
  fun index => if (index : Int) < len then source index else target index

def sendPacket (conn : Nat) (type : PacketType) (data : Nat → Word)
    (len : Int) (psn : Nat) (packetType : Opcode) : Frame where
  conn := conn
  type := type
  data := (List.range len.toNat).map data
  psn := psn
  packetType := packetType

def forwarding (rule : Rule) (psn : Nat) (type : PacketType)
    (data : Nat → Word) (len : Int) (packetType : Opcode) : List Frame :=
  if type = .ack ∨ type = .nak then
    rule.ackConn.toList.map fun conn =>
      sendPacket conn type data len psn packetType
  else if type = .data ∨ type = .dataSingle then
    rule.outConns.map fun conn =>
      sendPacket conn .data data len psn packetType
  else []

/-- An ACK or NAK carries no data. -/
def forwardingAck (rule : Rule) (psn : Nat) (type : PacketType) : List Frame :=
  forwarding rule psn type (fun _ => 0) 0 rdmaOpcodeAck

/-- The sending loop shared by `cache_and_broadcast` and `handle_broadcast`:
every connection is sent the data under its own next send PSN. -/
def sendToEach (ctx : SwitchContext) (data : Nat → Word) (len : Int)
    (opcode : Opcode) : List Nat → SwitchContext × List Frame
  | [] => (ctx, [])
  | conn :: conns =>
      if conn < ctx.fanIn then
        let frame := sendPacket conn .data data len (ctx.sendPsn conn) opcode
        let rest := sendToEach (ctx.bumpSendPsn conn) data len opcode conns
        (rest.1, frame :: rest.2)
      else sendToEach ctx data len opcode conns

/-- The caching half of `cache_and_broadcast`. -/
def SwitchContext.cacheDownstream (ctx : SwitchContext) (psn : Nat)
    (data : Nat → Word) (len : Int) (packetType : Opcode) : SwitchContext :=
  let state := ctx.psnStates (idx psn)
  let bcastBuffer :=
    { state.bcastBuffer with
      buffer := copyWords state.bcastBuffer.buffer data len
      len := len
      packetType := packetType
      state := true
      psn := psn }
  { ctx.setPsnState (idx psn) { state with bcastBuffer := bcastBuffer } with
    downEpsn := ctx.downEpsn + 1 }

def cacheAndBroadcast (ctx : SwitchContext) (rule : Rule) (psn : Nat)
    (data : Nat → Word) (len : Int) (packetType : Opcode) :
    SwitchContext × List Frame :=
  let cached := ctx.cacheDownstream psn data len packetType
  sendToEach cached (cached.psnStates (idx psn)).bcastBuffer.buffer len
    (stripImmediateOpcode packetType) rule.outConns

def handleBroadcast (ctx : SwitchContext) (connId : Nat)
    (data : Nat → Word) (len : Int) (packetType : Opcode) :
    SwitchContext × List Frame :=
  sendToEach ctx data len (stripImmediateOpcode packetType)
    ((List.range ctx.fanIn).filter fun conn => conn ≠ connId)

/-- `aggregate` under the slot lock: the first contribution is copied, every
later one is added to what the slot holds, whatever its PSN. -/
def PsnState.accumulate (state : PsnState) (opType : PrimitiveType)
    (rootRank : Int) (connId psn : Nat) (data : Nat → Word) (len : Int)
    (packetType : Opcode) : PsnState :=
  let filled : AggBuffer :=
    if state.degree = 0 then
      { state.aggBuffer with
        buffer := copyWords state.aggBuffer.buffer data len
        operationType := opType
        rootRank := rootRank }
    else
      { state.aggBuffer with
        buffer := copyWords state.aggBuffer.buffer
          (fun index =>
            htonl (ntohl (state.aggBuffer.buffer index) + ntohl (data index)))
          len }
  { state with
    aggBuffer :=
      { filled with
        len := len
        packetType := packetType
        state := true
        psn := psn }
    arrival := Function.update state.arrival connId true
    degree := state.degree + 1 }

/-- The clean-up after a result has been sent. -/
def PsnState.clear (state : PsnState) : PsnState :=
  { state with
    degree := 0
    arrival := fun _ => false
    aggBuffer := { state.aggBuffer with state := false } }

def SwitchContext.clearSlot (ctx : SwitchContext) (index : Nat) :
    SwitchContext :=
  ctx.setPsnState index (ctx.psnStates index).clear

/-- The `PRIMITIVE_TYPE_REDUCE` branch: only the root's connection is sent the
result, and only when the configuration placed that rank. -/
def sendToRoot (ctx : SwitchContext) (rootRank : Int) (data : Nat → Word)
    (len : Int) (packetType : Opcode) : SwitchContext × List Frame :=
  let targetConn := ctx.rankToConn rootRank
  if 0 ≤ targetConn ∧ targetConn < ctx.fanIn then
    let conn := targetConn.toNat
    let frame :=
      sendPacket conn .data data len (ctx.sendPsn conn)
        (stripImmediateOpcode packetType)
    (ctx.bumpSendPsn conn, [frame])
  else (ctx, [])

/-- `aggregate` once the slot holds a contribution of every connection. -/
def completeAggregation (ctx : SwitchContext) (rule : Rule)
    (opType : PrimitiveType) (rootRank : Int) (psn : Nat) (data : Nat → Word)
    (len : Int) (packetType : Opcode) : SwitchContext × List Frame :=
  if ctx.isRoot then
    match opType with
    | .allreduce =>
        let sent := cacheAndBroadcast ctx rule psn data len packetType
        (sent.1.clearSlot (idx psn), sent.2)
    | .reduce =>
        let sent := sendToRoot ctx rootRank data len packetType
        (sent.1.clearSlot (idx psn), sent.2)
    | _ => (ctx, [])
  else
    (ctx, forwarding rule psn .data data len (stripImmediateOpcode packetType))

def aggregate (ctx : SwitchContext) (rule : Rule) (connId psn : Nat)
    (data : Nat → Word) (len : Int) (packetType : Opcode) :
    SwitchContext × List Frame :=
  let opType := ctx.operationType
  let rootRank := ctx.rootRank
  if opType = .broadcast then handleBroadcast ctx connId data len packetType
  else
    let state :=
      (ctx.psnStates (idx psn)).accumulate opType rootRank connId psn data len
        packetType
    let accumulated := ctx.setPsnState (idx psn) state
    if state.degree = ctx.fanIn then
      completeAggregation accumulated rule opType rootRank psn
        state.aggBuffer.buffer len packetType
    else (accumulated, [])

/-- One round of the loop over the acknowledged PSNs. -/
def releaseSlot (ctx : SwitchContext) (psn : Nat) : SwitchContext :=
  let buffer := (ctx.psnStates (idx psn)).aggBuffer
  if buffer.state ∧ buffer.psn = psn then ctx.clearSlot (idx psn) else ctx

def handleDownstreamAck (ctx : SwitchContext) (psn : Nat) (isNak : Bool) :
    SwitchContext :=
  if isNak then ctx
  else if ctx.downAck < psn then
    { (List.range' (ctx.downAck + 1) (psn - ctx.downAck)).foldl releaseSlot ctx
      with downAck := psn }
  else ctx

/-- The slot update of `handle_upstream_ack`. -/
def PsnState.acknowledge (state : PsnState) (connId fanIn : Nat) : PsnState :=
  if state.rArrival connId then state
  else if state.rDegree + 1 = fanIn then
    { state with
      rDegree := 0
      rArrival := fun _ => false
      bcastBuffer := { state.bcastBuffer with state := false } }
  else
    { state with
      rArrival := Function.update state.rArrival connId true
      rDegree := state.rDegree + 1 }

def handleUpstreamAck (ctx : SwitchContext) (connId psn : Nat)
    (isNak : Bool) : SwitchContext :=
  if isNak then ctx
  else if ctx.latestAck connId < psn then
    { ctx.setPsnState (idx psn)
        ((ctx.psnStates (idx psn)).acknowledge connId ctx.fanIn) with
      latestAck := Function.update ctx.latestAck connId psn }
  else ctx

/-- The primitive and parameter announced by a packet's immediate data. -/
def Packet.announced (packet : Packet) : PrimitiveType × Int :=
  let imm := packet.immData
  let primitive :=
    if getImmPrimitive imm = ctlPrimitiveAllreduce then .allreduce
    else if getImmPrimitive imm = ctlPrimitiveReduce then .reduce
    else if getImmPrimitive imm = ctlPrimitiveBroadcast then .broadcast
    else .null
  (primitive,
    if getImmDestRank imm = ctlDestRankAll then -1 else getImmDestRank imm)

/-- The key `(prim, prim_param)` under which `packet_handler` looks a packet
up. -/
def SwitchContext.lookupKey (ctx : SwitchContext) (packet : Packet) :
    PrimitiveType × Int :=
  if packet.hasImmData then packet.announced
  else (ctx.operationType, ctx.rootRank)

/-- Immediate data overwrites the metadata before the rule lookup and before
any PSN check. -/
def SwitchContext.storeMetadata (ctx : SwitchContext) (packet : Packet) :
    SwitchContext :=
  if packet.hasImmData then
    { ctx with
      operationType := packet.announced.1
      rootRank := packet.announced.2
      ctrlPsn := if packet.isControlMessage then packet.psn else ctx.ctrlPsn }
  else ctx

/-- The control message branch: no comparison with `agg_epsn`. -/
def handleControlMessage (ctx : SwitchContext) (rule : Rule) (connId : Nat)
    (packet : Packet) : SwitchContext × List Frame :=
  (ctx.bumpAggEpsn connId, forwardingAck rule packet.psn .ack)

def handleDownstreamData (ctx : SwitchContext) (rule : Rule)
    (packet : Packet) : SwitchContext × List Frame :=
  if packet.psn < ctx.downEpsn then
    (ctx, forwardingAck rule (ctx.downEpsn - 1) .ack)
  else if packet.psn > ctx.downEpsn then
    (ctx, forwardingAck rule ctx.downEpsn .nak)
  else
    let sent :=
      cacheAndBroadcast ctx rule packet.psn packet.data packet.dataLen
        packet.opcode
    (sent.1, forwardingAck rule packet.psn .ack ++ sent.2)

def handleUpstreamData (ctx : SwitchContext) (rule : Rule) (connId : Nat)
    (packet : Packet) : SwitchContext × List Frame :=
  if packet.psn < ctx.aggEpsn connId then
    (ctx, forwardingAck rule (ctx.aggEpsn connId - 1) .ack)
  else if packet.psn > ctx.aggEpsn connId then
    (ctx, forwardingAck rule (ctx.aggEpsn connId) .nak)
  else
    let sent :=
      aggregate (ctx.bumpAggEpsn connId) rule connId packet.psn packet.data
        packet.dataLen packet.opcode
    (sent.1, forwardingAck rule packet.psn .ack ++ sent.2)

/-- What happens to a packet that is not a control message once a rule was
found. -/
def handleByRule (ctx : SwitchContext) (rule : Rule) (connId : Nat)
    (packet : Packet) : SwitchContext × List Frame :=
  if packet.isSend then
    if rule.direction = .down then handleDownstreamData ctx rule packet
    else handleUpstreamData ctx rule connId packet
  else if packet.opcode = rdmaOpcodeAck then
    if rule.direction = .down then
      (handleDownstreamAck ctx packet.psn packet.isNak, [])
    else (handleUpstreamAck ctx connId packet.psn packet.isNak, [])
  else (ctx, [])

def packetHandler (ctx : SwitchContext) (connId : Nat) (packet : Packet) :
    SwitchContext × List Frame :=
  let key := ctx.lookupKey packet
  let ctx := ctx.storeMetadata packet
  match lookupRule ctx.routingTable packet.srcIp packet.dstIp key.1 key.2 with
  | none => (ctx, [])
  | some rule =>
      if packet.isControlMessage then handleControlMessage ctx rule connId packet
      else handleByRule ctx rule connId packet

end IncEmulation
